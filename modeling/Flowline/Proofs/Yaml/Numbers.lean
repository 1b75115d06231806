import Flowline.Proofs.Expression.Numerals
import Flowline.Proofs.Number.Shortest
import Flowline.Yaml.Tag

/-! # Numbers in JSON and YAML

A whole number of JSON is one of YAML (`intOf_toString`). A double with a point in its text is the same double
(`floatOf_text`), and the text of any other is no number at all. -/

namespace Flowline

/-! ## The text of a double -/

namespace Spelling

/-- The spelling of a positive double: digits of ASCII around a point, or one digit without a point, and perhaps an
exponent. -/
structure Writes (sp : Spelling) (r : ℚ) : Prop where
  sign : sp.sign = []
  ne_nil : sp.whole ≠ []
  whole : ∀ c ∈ sp.whole, c.isDigit = true
  fraction : ∀ c ∈ sp.fraction?.getD [], c.isDigit = true
  exponent : ∀ x ∈ sp.exponent?, ∃ e, x = exponentOf e
  pointless : sp.fraction? = none → (∃ d, sp.whole = [d]) ∧ sp.exponent?.isSome = true
  value : (sp.numeral.digits : ℚ) * 10 ^ sp.numeral.exponent = r

theorem isDigit_toDigits {n : Nat} : ∀ c ∈ Nat.toDigits 10 n, c.isDigit = true :=
  fun _ hc => Nat.isDigit_of_mem_toDigits (by decide) (by decide) hc

theorem isDigit_append {ds es : List Char} (hds : ∀ c ∈ ds, c.isDigit = true) (hes : ∀ c ∈ es, c.isDigit = true) :
    ∀ c ∈ ds ++ es, c.isDigit = true :=
  fun c hc => (List.mem_append.1 hc).elim (hds c) (hes c)

theorem isDigit_replicate (n : Nat) : ∀ c ∈ List.replicate n '0', c.isDigit = true := fun c hc => by
  obtain rfl := List.eq_of_mem_replicate hc
  rfl

theorem writes_ofParts (whole fraction : List Char) (hwhole : ∀ c ∈ whole, c.isDigit = true)
    (hfraction : ∀ c ∈ fraction, c.isDigit = true) (hne : whole ≠ []) {d : Nat} {k : Int}
    (hvalue : (Nat.ofDigitChars 10 (whole ++ fraction) 0 : ℚ) * 10 ^ (-(fraction.length : Int)) = d * 10 ^ k) :
    Writes (ofParts whole fraction (isDigits_of_isDigit hwhole) (isDigits_of_isDigit hfraction) hne) (d * 10 ^ k) where
  sign := rfl
  ne_nil := hne
  whole := hwhole
  fraction := hfraction
  exponent := nofun
  pointless := nofun
  value := by
    rw [← hvalue, ← ofDigits_digitValues (isDigit_append hwhole hfraction)]
    simp [numeral, ofParts]

theorem isDigit_exponentOf (e : Int) : ∀ c ∈ (exponentOf e).digits, c.isDigit = true := by
  refine isDigit_append ?_ isDigit_toDigits
  split
  · exact isDigit_replicate 1
  · exact List.forall_mem_nil _

theorem value_exponentOf (e : Int) : (exponentOf e).value = e := by
  have hdigits : Numeral.ofDigits (digitValues (exponentOf e).digits) = e.natAbs := by
    rw [ofDigits_digitValues (isDigit_exponentOf e), exponentOf, Nat.ofDigitChars_append]
    have hzero : Nat.ofDigitChars 10 (if e.natAbs < 10 then ['0'] else []) 0 = 0 := by split <;> rfl
    rw [hzero, Nat.ofDigitChars_ten_toDigits]
  have hsign : (exponentOf e).sign = if e < 0 then ['-'] else ['+'] := rfl
  rw [ExponentSpelling.value, hdigits, hsign]
  by_cases he : e < 0
  · simp only [if_pos he, if_true]
    omega
  · simp only [if_neg he, List.cons.injEq, and_true, (by decide : ('+' = '-') = False), if_false]
    omega

theorem ofDigitChars_zeros (n : Nat) (ds : List Char) :
    Nat.ofDigitChars 10 (List.replicate n '0' ++ ds) 0 = Nat.ofDigitChars 10 ds 0 := by
  rw [Nat.ofDigitChars_append, Nat.ofDigitChars_replicate_zero, Nat.mul_zero]

theorem ofDigitChars_append_zeros (ds : List Char) (n : Nat) :
    Nat.ofDigitChars 10 (ds ++ List.replicate n '0') 0 = Nat.ofDigitChars 10 ds 0 * 10 ^ n := by
  rw [Nat.ofDigitChars_append, Nat.ofDigitChars_replicate_zero, Nat.mul_comm]

theorem text_exponentOf (e : Int) : (if e < 0 then "e-" else "e+") ++
    (if e.natAbs < 10 then "0" ++ toString e.natAbs else toString e.natAbs) = String.ofList (exponentOf e).chars := by
  rw [Nat.toString_eq_ofList_toDigits]
  apply String.toList_inj.1
  unfold exponentOf ExponentSpelling.chars
  by_cases hnegative : e < 0 <;> by_cases hsmall : e.natAbs < 10 <;> simp [hnegative, hsmall]

/-- One digit, perhaps a point and more digits, and an exponent. -/
def scientific (first : Char) (fraction? : Option (List Char)) (e : Int) (hfirst : first.isDigit = true)
    (hfraction : ∀ c ∈ fraction?.getD [], c.isDigit = true) : Spelling where
  sign := []
  whole := [first]
  fraction? := fraction?
  exponent? := some (exponentOf e)
  isSign := isSign_nil
  isDigits_whole := isDigits_of_isDigit (by simpa using hfirst)
  isDigits_fraction := isDigits_of_isDigit hfraction
  ne_nil := .inl (by simp)

theorem writes_scientific {first : Char} (fraction? : Option (List Char)) (e : Int) (hfirst : first.isDigit = true)
    (hfraction : ∀ c ∈ fraction?.getD [], c.isDigit = true) :
    Writes (scientific first fraction? e hfirst hfraction)
      (Nat.ofDigitChars 10 (first :: fraction?.getD []) 0 * 10 ^ (e - (fraction?.getD []).length)) where
  sign := rfl
  ne_nil := by simp [scientific]
  whole := by simpa [scientific] using hfirst
  fraction := hfraction
  exponent := fun x hx => ⟨e, (Option.some.inj hx).symm⟩
  pointless := fun _ => ⟨⟨first, rfl⟩, rfl⟩
  value := by
    have hdigits : ∀ c ∈ first :: fraction?.getD [], c.isDigit = true := List.forall_mem_cons.2 ⟨hfirst, hfraction⟩
    have hexponent : (scientific first fraction? e hfirst hfraction).numeral.exponent =
        e - (fraction?.getD []).length := by
      simp only [numeral, scientific, Option.map_some, Option.getD_some, value_exponentOf]
      ring
    rw [hexponent, ← ofDigits_digitValues hdigits]
    rfl

theorem exists_writes_exponential (ds : List Char) (e : Int) : (∀ c ∈ ds, c.isDigit = true) → ds ≠ [] →
    ∃ sp : Spelling, (match ds with
        | [] => ""
        | [d] => d.toString
        | d :: rest => d.toString ++ "." ++ String.ofList rest) ++
      (if e < 0 then "e-" else "e+") ++ (if e.natAbs < 10 then "0" ++ toString e.natAbs else toString e.natAbs) =
        String.ofList sp.chars ∧ sp.Writes (Nat.ofDigitChars 10 ds 0 * 10 ^ (e - (ds.length - 1 : Nat))) := by
  intro hds hne
  rw [String.append_assoc, text_exponentOf]
  obtain ⟨d, rest, rfl⟩ := List.exists_cons_of_ne_nil hne
  obtain ⟨hd, hrest⟩ := List.forall_mem_cons.1 hds
  cases rest with
  | nil =>
    have hwrites := writes_scientific none e hd nofun
    refine ⟨scientific d none e hd nofun, ?_, by simpa using hwrites⟩
    exact String.toList_inj.1 (by simp [scientific, chars, point, exponent])
  | cons f rest =>
    have hwrites := writes_scientific (some (f :: rest)) e hd hrest
    refine ⟨scientific d (some (f :: rest)) e hd hrest, ?_, by simpa using hwrites⟩
    exact String.toList_inj.1 (by simp [scientific, chars, point, exponent])

/-- The digits `d` with the exponent `k` are laid out as a spelling of `d * 10 ^ k`. -/
theorem exists_writes_layout (d : Nat) (k : Int) :
    ∃ sp : Spelling, Double.layout d k = String.ofList sp.chars ∧ sp.Writes (d * 10 ^ k) := by
  have hds : ∀ c ∈ Nat.toDigits 10 d, c.isDigit = true := isDigit_toDigits
  have hne : Nat.toDigits 10 d ≠ [] := Nat.toDigits_ne_nil
  have hd : Nat.ofDigitChars 10 (Nat.toDigits 10 d) 0 = d := Nat.ofDigitChars_ten_toDigits
  unfold Double.layout
  generalize Nat.toDigits 10 d = ds at hds hne hd
  dsimp only
  split
  · split
    · next hpoint =>
      refine ⟨_, ?_, writes_ofParts ['0'] (List.replicate (-(ds.length + k)).toNat '0' ++ ds)
        (isDigit_replicate 1) (isDigit_append (isDigit_replicate _) hds) (by simp) ?_⟩
      · exact String.toList_inj.1 (by simp [chars, ofParts, point, exponent])
      · have hzeros : ['0'] = List.replicate 1 '0' := rfl
        rw [hzeros, ofDigitChars_zeros, ofDigitChars_zeros, hd]
        congr 2
        simp
        omega
    · split
      · next hpoint =>
        refine ⟨_, ?_, writes_ofParts (ds ++ List.replicate ((ds.length + k).toNat - ds.length) '0')
          ['0'] (isDigit_append hds (isDigit_replicate _)) (isDigit_replicate 1) (by simp [hne]) ?_⟩
        · exact String.toList_inj.1 (by simp [chars, ofParts, point, exponent])
        · obtain ⟨n, rfl⟩ := Int.eq_ofNat_of_zero_le (show 0 ≤ k by omega)
          have hzeros : (ds.length + (n : Int)).toNat - ds.length = n := by omega
          have hlast : ['0'] = List.replicate 1 '0' := rfl
          rw [hzeros, hlast, List.append_assoc, List.replicate_append_replicate, ofDigitChars_append_zeros, hd, zpow_natCast]
          push_cast
          rw [List.length_singleton, pow_succ, Nat.cast_one, zpow_neg_one]
          field_simp
      · next hpos hpoint =>
        refine ⟨_, ?_, writes_ofParts (ds.take (ds.length + k).toNat) (ds.drop (ds.length + k).toNat)
          (fun c hc => hds c (List.mem_of_mem_take hc)) (fun c hc => hds c (List.mem_of_mem_drop hc)) ?_ ?_⟩
        · exact String.toList_inj.1 (by simp [chars, ofParts, point, exponent])
        · rw [ne_eq, List.take_eq_nil_iff]
          simp only [hne, or_false]
          omega
        · rw [List.take_append_drop, hd]
          congr 2
          simp
          omega
  · have hsize : 0 < ds.length := List.length_pos_iff.2 hne
    obtain ⟨sp, htext, hwrites⟩ := exists_writes_exponential ds (ds.length + k - 1) hds hne
    refine ⟨sp, htext, ?_⟩
    have hexponent : (ds.length : Int) + k - 1 - (ds.length - 1 : Nat) = k := by omega
    rwa [hexponent, hd] at hwrites

end Spelling

namespace Double

/-- The text of a finite double is a spelling that is read as the double, after its sign. -/
theorem exists_writes_text {x : Float} (hx : (parts? x).isSome = true) :
    ∃ (sp : Spelling) (r : ℚ), text x = (if isNegative x then "-" else "") ++ String.ofList sp.chars ∧ sp.Writes r ∧
      ofDecimal (isNegative x) sp.numeral.digits sp.numeral.exponent = x := by
  obtain ⟨p, hp⟩ := Option.isSome_iff_exists.1 hx
  have hnan : x.isNaN = false := isNaN_eq_false_of_parts? hx
  have hsign : isNegative x = p.negative := by
    unfold parts? at hp
    dsimp only at hp
    split at hp
    · cases hp
    · split at hp <;> cases hp <;> rfl
  obtain ⟨hbits, hmost, hleast, hnormal⟩ := ofMagnitude_of_parts? hp
  unfold text
  simp only [hnan, hp, hsign, Bool.false_eq_true, if_false]
  split
  · next hzero =>
    have hwrites := Spelling.writes_ofParts ['0'] ['0'] (d := 0) (k := 0)
      (Spelling.isDigit_replicate 1) (Spelling.isDigit_replicate 1) (by simp) (by simp [Nat.ofDigitChars])
    refine ⟨_, _, ?_, hwrites, ?_⟩
    · exact String.toList_inj.1 (by simp [Spelling.chars, Spelling.ofParts, Spelling.point, Spelling.exponent])
    · rw [hzero, hleast hzero] at hbits
      exact hbits
  · next hne =>
    obtain ⟨sp, htext, hwrites⟩ := Spelling.exists_writes_layout (digits p.mantissa p.exponent).1 (digits p.mantissa p.exponent).2
    refine ⟨sp, _, congrArg _ htext, hwrites, ?_⟩
    have haround := digits_around (hnormal hne) hmost
    rw [← hwrites.value] at haround
    rw [ofDecimal_eq (hnormal hne) hmost haround, hbits]

end Double

namespace Yaml

/-! ## The characters of numbers -/

def digitChars : List Char := ['0', '1', '2', '3', '4', '5', '6', '7', '8', '9']

/-- The characters of numbers in decimal digits. -/
def numberChars : List Char := digitChars ++ ['.', 'e', '+', '-']

theorem isDigit_iff {c : Char} : c.isDigit = true ↔ c ∈ digitChars := by
  constructor
  · intro h
    have hbounds : 48 ≤ c.toNat ∧ c.toNat ≤ 57 := by
      simpa [Char.isDigit, UInt32.le_iff_toNat_le] using h
    obtain ⟨hlow, hhigh⟩ := hbounds
    rw [← Char.ofNat_toNat c]
    generalize c.toNat = n at *
    interval_cases n <;> decide
  · have hall : digitChars.all Char.isDigit = true := by decide
    exact List.all_eq_true.1 hall c

theorem isDigit_mem {c : Char} (h : c.isDigit = true) : c ∈ numberChars := List.mem_append_left _ (isDigit_iff.1 h)

/-- No character of a number is changed or passed over by what reads it. -/
theorem of_mem_numberChars {c : Char} (h : c ∈ numberChars) : c.toLower = c ∧ c ≠ '_' ∧ c ≠ ':' := by
  have hall : numberChars.all (fun c => decide (c.toLower = c ∧ c ≠ '_' ∧ c ≠ ':')) = true := by decide
  exact of_decide_eq_true (List.all_eq_true.1 hall c h)

variable {sp : Spelling} {r : ℚ}

theorem mem_chars_exponentOf (e : Int) : ∀ c ∈ (Spelling.exponentOf e).chars, c ∈ numberChars := by
  intro c hc
  simp only [Spelling.exponentOf, ExponentSpelling.chars, List.mem_cons, List.mem_append] at hc
  obtain rfl | hc | hc | hc := hc
  · decide
  · split at hc <;> (rw [List.mem_singleton] at hc; subst hc; decide)
  · split at hc
    · rw [List.mem_singleton] at hc
      subst hc
      decide
    · cases hc
  · exact isDigit_mem (Spelling.isDigit_toDigits c hc)

theorem mem_chars_of_writes (h : sp.Writes r) : ∀ c ∈ sp.chars, c ∈ numberChars := by
  intro c hc
  simp only [Spelling.chars, h.sign, List.nil_append, List.mem_append] at hc
  obtain hc | hc | hc := hc
  · exact isDigit_mem (h.whole c hc)
  · cases hf : sp.fraction? with
    | none => simp [Spelling.point, hf] at hc
    | some f =>
      have hfraction := h.fraction
      simp only [hf, Option.getD_some] at hfraction
      simp only [Spelling.point, hf, Option.map_some, Option.getD_some, List.mem_cons] at hc
      obtain rfl | hc := hc
      · decide
      · exact isDigit_mem (hfraction c hc)
  · cases hx : sp.exponent? with
    | none => simp [Spelling.exponent, hx] at hc
    | some x =>
      obtain ⟨e, rfl⟩ := h.exponent x hx
      simp only [Spelling.exponent, hx, Option.map_some, Option.getD_some] at hc
      exact mem_chars_exponentOf e c hc

/-- The first character of a number is a digit. -/
theorem exists_chars_of_writes (h : sp.Writes r) : ∃ d rest, sp.chars = d :: rest ∧ d.isDigit = true := by
  obtain ⟨d, whole, hwhole⟩ := List.exists_cons_of_ne_nil h.ne_nil
  refine ⟨d, whole ++ (sp.point ++ sp.exponent), ?_, h.whole d (by simp [hwhole])⟩
  rw [Spelling.chars, h.sign, hwhole]
  rfl

/-! ## Doubles with a point -/

/-- The minus of a negative number. -/
def minus (negative : Bool) : List Char := if negative then ['-'] else []

theorem afterSign_minus (negative : Bool) {d : Char} {rest : List Char} (hd : d.isDigit = true) :
    afterSign (minus negative ++ d :: rest) = d :: rest := by
  cases negative with
  | true => rfl
  | false =>
    have hne : d ≠ '+' ∧ d ≠ '-' := by
      constructor <;>
      · rintro rfl
        cases hd
    unfold minus afterSign
    simp [hne]

theorem isDigitOrGap_of_isDigit {c : Char} (h : c.isDigit = true) : isDigitOrGap c = true := by
  rw [isDigitOrGap, h, Bool.true_or]

theorem looksExponent_chars (e : Int) : looksExponent (Spelling.exponentOf e).chars = true := by
  have hdigits : (Spelling.exponentOf e).digits.all Char.isDigit = true :=
    List.all_eq_true.2 (Spelling.isDigit_exponentOf e)
  have hne : (Spelling.exponentOf e).digits.isEmpty = false := by simp [(Spelling.exponentOf e).ne_nil]
  have hsign : (Spelling.exponentOf e).sign = if e < 0 then ['-'] else ['+'] := rfl
  rw [ExponentSpelling.chars, hsign]
  split <;>
  · simp only [List.cons_append, List.nil_append, looksExponent, hdigits, hne]
    rfl

/-- An exponent is seen after the digits before it. -/
theorem looksExponent_of_writes (h : sp.Writes r) {ds : List Char} (hds : ∀ c ∈ ds, c.isDigit = true) :
    looksExponent ((ds ++ sp.exponent).dropWhile isDigitOrGap) = true := by
  rw [List.dropWhile_append_of_pos fun c hc => isDigitOrGap_of_isDigit (hds c hc)]
  cases hx : sp.exponent? with
  | none =>
    rw [Spelling.exponent, hx]
    rfl
  | some x =>
    obtain ⟨e, rfl⟩ := h.exponent x hx
    rw [Spelling.exponent, hx]
    exact looksExponent_chars e

theorem looksFloat_of_writes (h : sp.Writes r) (negative : Bool) (hpoint : sp.fraction?.isSome = true) :
    looksFloat (minus negative ++ sp.chars) = true := by
  obtain ⟨f, hf⟩ := Option.isSome_iff_exists.1 hpoint
  obtain ⟨d, rest, hchars, hd⟩ := exists_chars_of_writes h
  have hfraction := h.fraction
  rw [hf, Option.getD_some] at hfraction
  have hunsigned : afterSign (minus negative ++ sp.chars) = sp.whole ++ '.' :: (f ++ sp.exponent) := by
    rw [hchars, afterSign_minus negative hd, ← hchars, Spelling.chars, h.sign, Spelling.point, hf]
    rfl
  have hne : ∀ c ∈ sp.whole, (c != '.') = true := by
    intro c hc
    have hdigit := h.whole c hc
    rw [bne_iff_ne]
    rintro rfl
    cases hdigit
  have hbefore : (sp.whole ++ '.' :: (f ++ sp.exponent)).takeWhile (· != '.') = sp.whole := by
    rw [List.takeWhile_append_of_pos hne]
    simp
  have hafter : ((sp.whole ++ '.' :: (f ++ sp.exponent)).dropWhile (· != '.')).drop 1 = f ++ sp.exponent := by
    rw [List.dropWhile_append_of_pos hne]
    simp
  have hempty : sp.whole.isEmpty = false := by simp [h.ne_nil]
  have hstart : startsWithDigit sp.whole = true := by
    obtain ⟨d, whole, hwhole⟩ := List.exists_cons_of_ne_nil h.ne_nil
    rw [hwhole]
    exact h.whole d (by simp [hwhole])
  have hgaps : sp.whole.all isDigitOrGap = true :=
    List.all_eq_true.2 fun c hc => isDigitOrGap_of_isDigit (h.whole c hc)
  simp only [looksFloat, hunsigned, hbefore, hafter, hempty, hstart, hgaps, looksExponent_of_writes h hfraction]
  simp

/-- The digits of a number after its minus, in the characters of numbers. -/
theorem mem_numberChars_of_writes (h : sp.Writes r) (negative : Bool) :
    ∀ c ∈ minus negative ++ sp.chars, c ∈ numberChars := by
  intro c hc
  obtain hc | hc := List.mem_append.1 hc
  · unfold minus at hc
    split at hc
    · rw [List.mem_singleton] at hc
      subst hc
      decide
    · cases hc
  · exact mem_chars_of_writes h c hc

theorem doubleNumber_of_writes (h : sp.Writes r) :
    doubleNumber sp.chars = .ok (Double.ofDecimal false sp.numeral.digits sp.numeral.exponent) := by
  unfold doubleNumber
  rw [sp.whole?_chars]
  simp [Spelling.numeral, h.sign, Numeral.toFloat]

theorem floatOf_of_writes (h : sp.Writes r) (negative : Bool) :
    floatOf (String.ofList (minus negative ++ sp.chars)) =
      .ok (Double.ofDecimal negative sp.numeral.digits sp.numeral.exponent) := by
  obtain ⟨d, rest, hchars, hd⟩ := exists_chars_of_writes h
  have hall := mem_numberChars_of_writes h negative
  have hkept : (minus negative ++ sp.chars).filter (· != '_') = minus negative ++ sp.chars :=
    List.filter_eq_self.2 fun c hc => bne_iff_ne.2 (of_mem_numberChars (hall c hc)).2.1
  have hlower : (minus negative ++ sp.chars).map Char.toLower = minus negative ++ sp.chars :=
    (List.map_congr_left fun c hc => (of_mem_numberChars (hall c hc)).1).trans (List.map_id _)
  have hunsigned : afterSign (minus negative ++ sp.chars) = sp.chars := by
    rw [hchars, afterSign_minus negative hd]
  have hempty : (minus negative ++ sp.chars).isEmpty = false := by simp [hchars]
  have hword (word : String) (hpoint : word.toList.head? = some '.') : (String.ofList sp.chars == word) = false := by
    rw [beq_eq_false_iff_ne]
    rintro rfl
    rw [String.toList_ofList, hchars] at hpoint
    obtain rfl := Option.some.inj hpoint
    cases hd
  have hcolon : sp.chars.contains ':' = false := by
    rw [List.contains_eq_mem, decide_eq_false_iff_not]
    exact fun hmem => (of_mem_numberChars (mem_chars_of_writes h _ hmem)).2.2 rfl
  unfold floatOf
  simp only [String.toList_ofList, hkept, hlower, hempty, hunsigned, hword ".inf" rfl, hword ".nan" rfl, hcolon,
    doubleNumber_of_writes h]
  cases negative with
  | true => exact congrArg Except.ok (Double.ofDecimal_neg sp.numeral.digits sp.numeral.exponent)
  | false =>
    have hne : d ≠ '-' := by
      rintro rfl
      cases hd
    simp [minus, hchars, hne]

/-- A point stands in a spelling that has digits after one, and in no other. -/
theorem point_mem_chars_iff (sp : Spelling) : '.' ∈ sp.chars ↔ sp.fraction?.isSome = true := by
  cases hf : sp.fraction? with
  | some f => simp [Spelling.chars, Spelling.point, hf]
  | none =>
    simp [Spelling.chars, Spelling.point, hf, sp.point_not_mem_sign, sp.point_not_mem_exponent,
      Spelling.point_not_mem_digits sp.isDigits_whole]

/-- The text of a double is its sign and a spelling of it. -/
theorem exists_chars_text {x : Float} (hx : (Double.parts? x).isSome = true) :
    ∃ (sp : Spelling) (r : ℚ), (Double.text x).toList = minus (Double.isNegative x) ++ sp.chars ∧ sp.Writes r ∧
      Double.ofDecimal (Double.isNegative x) sp.numeral.digits sp.numeral.exponent = x := by
  obtain ⟨sp, r, htext, hwrites, hvalue⟩ := Double.exists_writes_text hx
  refine ⟨sp, r, ?_, hwrites, hvalue⟩
  rw [htext]
  cases Double.isNegative x <;> simp [minus]

theorem point_not_mem_minus (negative : Bool) : '.' ∉ minus negative := by
  cases negative <;> decide

/-- A double whose text has a point is read as it was written. -/
theorem floatOf_text {x : Float} (hx : (Double.parts? x).isSome = true) (hpoint : '.' ∈ (Double.text x).toList) :
    looksFloat (Double.text x).toList = true ∧ floatOf (Double.text x) = .ok x := by
  obtain ⟨sp, r, htext, hwrites, hvalue⟩ := exists_chars_text hx
  rw [htext, List.mem_append] at hpoint
  have hfraction := (point_mem_chars_iff sp).1 (hpoint.resolve_left (point_not_mem_minus _))
  have hread := floatOf_of_writes hwrites (Double.isNegative x)
  rw [hvalue, ← htext, String.ofList_toList] at hread
  exact ⟨by rw [htext, looksFloat_of_writes hwrites _ hfraction], hread⟩

/-! ## Whole numbers -/

theorem exists_toDigits {n : Nat} : n ≠ 0 → ∃ d rest, Nat.toDigits 10 n = d :: rest ∧ d ≠ '0' := by
  induction n using Nat.strongRecOn with
  | ind n ih =>
    intro hn
    by_cases hsmall : n < 10
    · rw [Nat.toDigits_of_lt_base hsmall]
      refine ⟨_, [], rfl, ?_⟩
      interval_cases n
      all_goals first | exact absurd rfl hn | decide
    · rw [Nat.toDigits_of_base_le (by decide) (by omega)]
      obtain ⟨d, rest, hdigits, hd⟩ := ih (n / 10) (by omega) (by omega)
      exact ⟨d, rest ++ [_], by rw [hdigits]; rfl, hd⟩

theorem toList_toString_int (n : Int) : (toString n).toList = minus (decide (n < 0)) ++ Nat.toDigits 10 n.natAbs := by
  cases n with
  | ofNat n =>
    have htext : toString (Int.ofNat n) = toString n := rfl
    rw [htext, Nat.toString_eq_ofList_toDigits, String.toList_ofList]
    simp [minus]
  | negSucc n =>
    have htext : toString (Int.negSucc n) = "-" ++ toString (n + 1) := rfl
    rw [htext, Nat.toString_eq_ofList_toDigits, String.toList_append, String.toList_ofList]
    simp [minus, Int.natAbs_negSucc]

/-- Digits without a zero at their front, or the digit zero alone. -/
inductive Counts : List Char → Nat → Prop
  | zero : Counts ['0'] 0
  | pos {d rest n} (hdigits : ∀ c ∈ d :: rest, c.isDigit = true) (hfirst : d ≠ '0')
    (hspells : d :: rest = Nat.toDigits 10 n) : Counts (d :: rest) n

theorem counts_toDigits (n : Nat) : Counts (Nat.toDigits 10 n) n := by
  rcases Nat.eq_zero_or_pos n with rfl | hn
  · exact .zero
  · obtain ⟨d, rest, hspells, hfirst⟩ := exists_toDigits (by omega : n ≠ 0)
    rw [hspells]
    exact .pos (hspells ▸ Spelling.isDigit_toDigits) hfirst hspells.symm

theorem point_not_mem_of_isDigit {ds : List Char} (hds : ∀ c ∈ ds, c.isDigit = true) : '.' ∉ ds := fun hmem => by
  have hpoint := hds '.' hmem
  cases hpoint

variable {ds : List Char} {n : Nat}

theorem Counts.isDigit (h : Counts ds n) : ∀ c ∈ ds, c.isDigit = true := by
  cases h with
  | zero => exact Spelling.isDigit_replicate 1
  | pos hdigits => exact hdigits

theorem Counts.exists_cons (h : Counts ds n) : ∃ d rest, ds = d :: rest ∧ d.isDigit = true := by
  cases h with
  | zero => exact ⟨_, _, rfl, rfl⟩
  | pos hdigits => exact ⟨_, _, rfl, hdigits _ (by simp)⟩

theorem looksFloat_of_no_point {cs : List Char} (h : '.' ∉ cs) : looksFloat cs = false := by
  have hunsigned : (afterSign cs).contains '.' = false := by
    rw [List.contains_eq_mem, decide_eq_false_iff_not]
    intro hmem
    unfold afterSign at hmem
    split at hmem
    · exact h (List.mem_cons_of_mem _ hmem)
    · exact h (List.mem_cons_of_mem _ hmem)
    · exact h hmem
  simp only [looksFloat, hunsigned]
  rfl

theorem Counts.looksInt (h : Counts ds n) (negative : Bool) : looksInt (minus negative ++ ds) = true := by
  obtain ⟨d, rest, hcons, hd⟩ := h.exists_cons
  unfold Yaml.looksInt
  rw [hcons, afterSign_minus negative hd]
  cases h with
  | zero =>
    cases hcons
    rfl
  | pos hdigits hfirst =>
    cases hcons
    have hgaps : (d :: rest).all isDigitOrGap = true := List.all_eq_true.2 fun c hc => isDigitOrGap_of_isDigit (hdigits c hc)
    split
    · next heq => exact absurd (List.cons.inj heq).1 hfirst
    · next heq => exact absurd (List.cons.inj heq).1 hfirst
    · next heq => exact absurd (List.cons.inj heq).1 hfirst
    · rw [hgaps]
      exact congrArg (· && _) hd

theorem colonPieces_of_no_colon {cs : List Char} (h : ':' ∉ cs) : colonPieces cs = [cs] := by
  induction cs with
  | nil => rfl
  | cons c cs ih =>
    rw [List.mem_cons, not_or] at h
    rw [colonPieces, ih h.2]
    exact fun heq => h.1 heq.symm

theorem wholeNumber_toDigits (hn : n < tenTo Value.maxNumeralSize) : wholeNumber (Nat.toDigits 10 n) = .ok (n : Int) := by
  have hchars : (Spelling.ofNat n).chars = Nat.toDigits 10 n := by
    simp [Spelling.chars, Spelling.ofNat, Spelling.point, Spelling.exponent]
  have hlength : (Nat.toDigits 10 n).length ≤ Value.maxNumeralSize := by
    obtain ⟨size, hsize⟩ : ∃ size, Value.maxNumeralSize = size + 1 := ⟨_, rfl⟩
    rw [hsize] at hn ⊢
    exact Nat.toDigits_length 10 n (size + 1) (Nat.succ_pos size) hn
  unfold wholeNumber
  rw [← hchars, Spelling.whole?_chars, Spelling.numeral_ofNat]
  simp [hlength, Numeral.toInt]

/-- A whole number that is not too long is read as it was written. -/
theorem intOf_toString {n : Int} (hn : n.natAbs < tenTo Value.maxNumeralSize) :
    looksInt (toString n).toList = true ∧ intOf (toString n) = .ok n := by
  have hcounts := counts_toDigits n.natAbs
  have hplace := wholeNumber_toDigits hn
  have hsigned : (if n < 0 then -(n.natAbs : Int) else n.natAbs) = n := by split <;> omega
  obtain ⟨d, rest, hcons, hd⟩ := hcounts.exists_cons
  refine ⟨by rw [toList_toString_int, hcounts.looksInt], ?_⟩
  generalize hds : Nat.toDigits 10 n.natAbs = ds at hcounts hplace hcons
  generalize n.natAbs = m at hcounts hplace hsigned
  have hunsigned : afterSign (minus (decide (n < 0)) ++ ds) = ds := by rw [hcons, afterSign_minus _ hd]
  have hkept : (minus (decide (n < 0)) ++ ds).filter (· != '_') = minus (decide (n < 0)) ++ ds := by
    refine List.filter_eq_self.2 fun c hc => bne_iff_ne.2 ?_
    obtain hc | hc := List.mem_append.1 hc
    · unfold minus at hc
      split at hc
      · rw [List.mem_singleton.1 hc]
        decide
      · cases hc
    · exact (of_mem_numberChars (isDigit_mem (hcounts.isDigit c hc))).2.1
  have hempty : (minus (decide (n < 0)) ++ ds).isEmpty = false := by simp [hcons]
  have hsign : ((minus (decide (n < 0)) ++ ds).headD endMark == '-') = decide (n < 0) := by
    by_cases hneg : n < 0
    · simp [minus, hneg]
    · have hne : d ≠ '-' := by
        rintro rfl
        cases hd
      simp [minus, hneg, hcons, hne]
  have hcolon : ':' ∉ ds := fun hmem => (of_mem_numberChars (isDigit_mem (hcounts.isDigit _ hmem))).2.2 rfl
  unfold intOf
  simp only [toList_toString_int, hds, hkept, hempty, hunsigned, hsign, Bool.false_eq_true, if_false]
  cases hcounts with
  | zero =>
    have hzero : n = 0 := by
      rw [← hsigned]
      simp
    rw [hzero]
    rfl
  | pos hdigits hfirst =>
    cases hcons
    have hne : (d :: rest == ['0']) = false := by simp [hfirst]
    simp only [hne, Bool.false_eq_true, if_false]
    split
    · next heq => cases heq
    · next heq => exact absurd (List.cons.inj heq).1 hfirst
    · next heq => exact absurd (List.cons.inj heq).1 hfirst
    · next heq => exact absurd (List.cons.inj heq).1 hfirst
    · rw [colonPieces_of_no_colon hcolon, List.mapM_cons, hplace]
      refine congrArg Except.ok (Eq.trans ?_ hsigned)
      simp

end Yaml

end Flowline
