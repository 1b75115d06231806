import Flowline.Json.Write
import Flowline.Proofs.Expression.Lexing
import Flowline.Proofs.Number.Rounded

/-! # Literals

A text in JSON form is one string lexeme that stands for the text (`lexes_string`, `stringValue_string`).
A spelling without a sign is one number lexeme, unless a point stands in it without a digit on either side
(`Spelling.lexes`). -/

namespace Flowline.Expression

open Text

variable {c : Char} {cs rest : List Char}

/-! ## Strings -/

/-- Four digits that are read back as a code, none of them a quote or a backslash. -/
def spellsCode (n : Nat) : List Char → Bool
  | [x, y, z, w] =>
    Json.hex4? [x, y, z, w] == some (n, []) && [x, y, z, w].all fun d => d != '"' && d != '\\'
  | _ => false

theorem spellsCode_hexDigits {n : Nat} (hn : n < 32) : spellsCode n (hexDigits 4 n) = true := by
  have hall : ∀ n < 32, spellsCode n (hexDigits 4 n) = true := by decide +kernel
  exact hall n hn

/-- How a character is written inside quotes: as a pair, as four digits, or as it is. -/
inductive Written (quote c : Char) : List Char → Prop
  | pair {d} (hd : escapedChar d = c) (hu : d ≠ 'u') (hline : d ≠ '\n') : Written quote c ['\\', d]
  | digits {x y z w} (hvalue : Json.hex4? [x, y, z, w] = some (c.toNat, []))
    (hplain : ∀ d ∈ [x, y, z, w], d ≠ quote ∧ d ≠ '\\') : Written quote c ['\\', 'u', x, y, z, w]
  | self (hquote : c ≠ quote) (hslash : c ≠ '\\') : Written quote c [c]

/-- What is written inside quotes for some characters. -/
inductive Body (quote : Char) : List Char → List Char → Prop
  | nil : Body quote [] []
  | cons {c cs text texts} (h : Written quote c text) (hrest : Body quote cs texts) :
    Body quote (c :: cs) (text ++ texts)

/-- A text in quotes of either kind that stands for a text. -/
def Quoted (s text : String) : Prop :=
  ∃ quote body, isQuote quote = true ∧ Body quote s.toList body ∧ text.toList = quote :: (body ++ [quote])

variable {quote : Char}

theorem written_escapedChar (c : Char) : Written '"' c (Json.escapedChar c) := by
  unfold Json.escapedChar
  split
  · next h => obtain rfl := beq_iff_eq.1 h; exact .pair rfl (by decide) (by decide)
  split
  · next h => obtain rfl := beq_iff_eq.1 h; exact .pair rfl (by decide) (by decide)
  split
  · next h => obtain rfl := beq_iff_eq.1 h; exact .pair rfl (by decide) (by decide)
  split
  · next h => obtain rfl := beq_iff_eq.1 h; exact .pair rfl (by decide) (by decide)
  split
  · next h => obtain rfl := beq_iff_eq.1 h; exact .pair rfl (by decide) (by decide)
  split
  · next h => exact .pair (Char.toNat_inj.1 (beq_iff_eq.1 h).symm) (by decide) (by decide)
  split
  · next h => exact .pair (Char.toNat_inj.1 (beq_iff_eq.1 h).symm) (by decide) (by decide)
  split
  · next h =>
    have hcode := spellsCode_hexDigits h
    unfold spellsCode at hcode
    split at hcode
    · next x y z w heq =>
      rw [heq]
      obtain ⟨hvalue, hplain⟩ := Bool.and_eq_true_iff.1 hcode
      exact .digits (beq_iff_eq.1 hvalue) (by simpa using hplain)
    · cases hcode
  · next hquote hslash _ _ _ _ _ _ =>
    exact .self (by simpa using hquote) (by simpa using hslash)

theorem Written.unescape (h : Written quote c cs) : unescape (cs ++ rest) = c :: unescape rest := by
  cases h with
  | @pair d hd hu =>
    simp only [List.cons_append, List.nil_append]
    rw [Expression.unescape.eq_def]
    split
    · next heq => simp_all
    · next heq =>
      cases heq
      rw [hd]
    · next hpair heq =>
      cases heq
      exact (hpair d rest rfl rfl).elim
    · next heq => cases heq
  | digits hvalue => simp [Expression.unescape, hvalue]
  | self _ hslash =>
    simp only [List.cons_append, List.nil_append]
    rw [Expression.unescape.eq_def]
    split <;> simp_all

theorem Written.stringSize? (h : Written quote c cs) :
    stringSize? quote (cs ++ rest) = (stringSize? quote rest).map (· + cs.length) := by
  cases h with
  | pair _ _ hline => simp [Expression.stringSize?, hline]
  | digits _ hplain =>
    simp only [List.mem_cons, List.not_mem_nil, or_false, forall_eq_or_imp, forall_eq] at hplain
    obtain ⟨hx, hy, hz, hw⟩ := hplain
    simp [Expression.stringSize?, stringSize?_cons, hx, hy, hz, hw, Option.map_map, Function.comp_def, Nat.add_assoc]
  | self hquote hslash => simp [stringSize?_cons hslash, hquote]

theorem Body.unescape {s body : List Char} (h : Body quote s body) : unescape body = s := by
  induction h with
  | nil => rfl
  | cons h _ ih => rw [h.unescape, ih]

theorem Body.stringSize? {s body : List Char} (h : Body quote s body) (hquote : isQuote quote = true) :
    stringSize? quote (body ++ quote :: rest) = some (body.length + 1) := by
  induction h with
  | nil => simp [stringSize?_cons (ne_slash_of_isQuote hquote)]
  | cons h _ ih =>
    rw [List.append_assoc, h.stringSize?, ih]
    simp only [Option.map_some, List.length_append]
    congr 1
    omega

theorem body_flatMap (cs : List Char) : Body '"' cs (cs.flatMap Json.escapedChar) := by
  induction cs with
  | nil => exact .nil
  | cons c cs ih => exact .cons (written_escapedChar c) ih

variable {s text : String}

/-- A quoted text is read back. -/
theorem Quoted.stringValue_eq (h : Quoted s text) : stringValue text = s := by
  obtain ⟨quote, body, -, hbody, htext⟩ := h
  simp [stringValue, htext, hbody.unescape]

/-- A quoted text is one lexeme. -/
theorem Quoted.lexes (h : Quoted s text) : Lexes text.toList [⟨.string, text⟩] := by
  obtain ⟨quote, body, hquote, hbody, htext⟩ := h
  have htoken : lexeme? quote (body ++ [quote]) = some (some .string, (body ++ [quote]).length) := by
    rw [lexeme?_of_isQuote hquote, hbody.stringSize? hquote]
    simp
  have hlexes := Lexes.single htoken
  rwa [← htext, String.ofList_toList] at hlexes

theorem quoted_string (s : String) : Quoted s (Json.string s) :=
  ⟨'"', _, rfl, body_flatMap s.toList, by simp [Json.string]⟩

/-- A text in JSON form is read back. -/
theorem stringValue_string (s : String) : stringValue (Json.string s) = s := (quoted_string s).stringValue_eq

/-- A text in JSON form is one lexeme. -/
theorem lexes_string (s : String) : Lexes (Json.string s).toList [⟨.string, Json.string s⟩] := (quoted_string s).lexes

/-! ## Numbers -/

theorem lexeme?_of_isDecimal (hc : isDecimal c = true) : lexeme? c cs = some (some .number, numberSize cs) := by
  simp only [lexeme?, not_isBlank_of_isDecimal hc, hc, Bool.false_eq_true, if_false, if_true]

theorem countWhile_digits {ds : List Char} (hds : IsDigits ds) (hrest : NoDigitAhead rest) :
    countWhile isDecimal (ds ++ rest) = ds.length := by
  rw [countWhile, List.takeWhile_append_of_pos hds]
  cases rest with
  | nil => simp
  | cons c rest => simp [hrest c rfl]

theorem fractionSize_point {fraction : List Char} (hfraction : IsDigits fraction) (hne : fraction ≠ [])
    (hrest : NoDigitAhead rest) : fractionSize ('.' :: (fraction ++ rest)) = fraction.length + 1 := by
  rw [fractionSize, countWhile_digits hfraction hrest]
  split
  · next hzero => exact absurd (List.length_eq_zero_iff.1 hzero) hne
  · rfl

theorem fractionSize_of_head?_ne (h : cs.head? ≠ some '.') : fractionSize cs = 0 := by
  unfold fractionSize
  split
  · exact absurd rfl h
  · rfl

/-- A point does not go on with a number where no digit follows it. -/
theorem fractionSize_eq_zero (h : NoDigitAhead cs) : fractionSize ('.' :: cs) = 0 := by
  have hzero := countWhile_digits isDigits_nil h
  rw [List.nil_append, List.length_nil] at hzero
  simp only [fractionSize, hzero]

theorem exponentSize_chars (x : ExponentSpelling) : exponentSize x.chars = x.chars.length := by
  have hletter : (x.letter == 'e' || x.letter == 'E') = true := by simpa using x.letter_eq
  have hdigits : countWhile isDecimal x.digits = x.digits.length := by
    simpa using countWhile_digits x.isDigits noDigitAhead_nil
  have hne : x.digits.length ≠ 0 := fun hzero => x.ne_nil (List.length_eq_zero_iff.1 hzero)
  simp only [ExponentSpelling.chars, exponentSize, hletter, if_true]
  rcases x.isSign with hsign | hsign | hsign
  · obtain ⟨d, ds, hd⟩ := List.exists_cons_of_ne_nil x.ne_nil
    have hahead : NoSignAhead (x.digits ++ []) := x.isDigits.noSignAhead x.ne_nil
    rw [hd] at hahead
    obtain ⟨hplus, hminus⟩ := hahead d rfl
    rw [hd] at hdigits
    simp [hsign, hd, hdigits, hplus, hminus]
  · simp [hsign, hdigits]
  · simp [hsign, hdigits]

end Flowline.Expression

namespace Flowline.Spelling

open Text Expression Double

variable {sp : Spelling}

/-- No point stands in the spelling without a digit on either side. -/
def Closed (sp : Spelling) : Prop := sp.whole ≠ [] ∧ sp.fraction? ≠ some []

theorem exponentSize_exponent (sp : Spelling) : exponentSize sp.exponent = sp.exponent.length := by
  unfold exponent
  cases sp.exponent? with
  | none => rfl
  | some x => exact exponentSize_chars x

theorem Closed.fractionSize_point (h : sp.Closed) : fractionSize (sp.point ++ sp.exponent) = sp.point.length := by
  have hdigits := sp.isDigits_fraction
  have htail : NoDigitAhead (sp.exponent ++ []) := sp.noDigitAhead_exponent nofun
  have hpoint : (sp.exponent ++ []).head? ≠ some '.' := sp.head?_exponent_ne (by simp)
  rw [List.append_nil] at htail hpoint
  unfold point
  cases hf : sp.fraction? with
  | none => simpa using fractionSize_of_head?_ne hpoint
  | some f =>
    rw [hf] at hdigits
    have hne : f ≠ [] := fun hnil => h.2 (hnil ▸ hf)
    simpa using Expression.fractionSize_point hdigits hne htail

/-- A spelling without a sign is one lexeme. -/
theorem Closed.lexes (h : sp.Closed) (hsign : sp.sign = []) :
    Lexes sp.chars [⟨.number, String.ofList sp.chars⟩] := by
  obtain ⟨c, whole, hwhole⟩ := List.exists_cons_of_ne_nil h.1
  have hdigits := sp.isDigits_whole
  rw [hwhole] at hdigits
  obtain ⟨hc, hdigits⟩ := List.forall_mem_cons.1 hdigits
  have htail : NoDigitAhead (sp.point ++ (sp.exponent ++ [])) := sp.noDigitAhead_point nofun
  rw [List.append_nil] at htail
  have hsize : numberSize (whole ++ (sp.point ++ sp.exponent)) = (whole ++ (sp.point ++ sp.exponent)).length := by
    simp only [numberSize, countWhile_digits hdigits htail, List.drop_left, h.fractionSize_point,
      exponentSize_exponent, List.length_append]
    omega
  have hchars : sp.chars = c :: (whole ++ (sp.point ++ sp.exponent)) := by
    simp [chars, hsign, hwhole]
  have hlexes := Lexes.single (by rw [lexeme?_of_isDecimal hc, hsize])
  rwa [← hchars] at hlexes

/-! ## Values of numbers -/

theorem toNumber_chars (sp : Spelling) :
    (Value.str (String.ofList sp.chars)).toNumber = Value.numeralNumber sp.numeral := by
  simp only [Value.toNumber, sp.whole?_chars]

theorem numberValue_of_toNumber {text : String} {n : Number}
    (h : (Value.str text).toNumber = .ok n) : numberValue text = .ok n.toValue := by
  simp only [numberValue, h]

/-- A spelling with a point or an exponent is that of a double. -/
theorem numeralNumber_of_not_plain (h : sp.numeral.plain = false) :
    Value.numeralNumber sp.numeral = .ok (.float sp.numeral.toFloat) := by
  have hlegible : sp.numeral.legible = true := rfl
  simp [Value.numeralNumber, h, hlegible]

theorem isDigits_of_isDigit {ds : List Char} (h : ∀ c ∈ ds, c.isDigit = true) : IsDigits ds := fun c hc => by
  rw [isDecimal, decimalValue?_of_isDigit (h c hc)]
  rfl

theorem isDigits_toDigits (n : Nat) : IsDigits (Nat.toDigits 10 n) :=
  isDigits_of_isDigit fun _ hc => Nat.isDigit_of_mem_toDigits (by decide) (by decide) hc

theorem ofDigits_digitValues {ds : List Char} (h : ∀ c ∈ ds, c.isDigit = true) :
    Numeral.ofDigits (digitValues ds) = Nat.ofDigitChars 10 ds 0 := by
  have hfold (n : Nat) : (digitValues ds).foldl (fun n d => 10 * n + d) n = Nat.ofDigitChars 10 ds n := by
    induction ds generalizing n with
    | nil => rfl
    | cons c ds ih =>
      obtain ⟨hc, hds⟩ := List.forall_mem_cons.1 h
      rw [digitValues, List.filterMap_cons, decimalValue?_of_isDigit hc]
      exact ih hds _
  exact hfold 0

/-- A whole number without a sign. -/
def ofNat (n : Nat) : Spelling where
  sign := []
  whole := Nat.toDigits 10 n
  fraction? := none
  exponent? := none
  isSign := isSign_nil
  isDigits_whole := isDigits_toDigits n
  isDigits_fraction := isDigits_nil
  ne_nil := .inl Nat.toDigits_ne_nil

theorem chars_ofNat (n : Nat) : String.ofList (ofNat n).chars = toString n := by
  rw [Nat.toString_eq_ofList_toDigits]
  simp [chars, ofNat, point, exponent]

theorem closed_ofNat (n : Nat) : (ofNat n).Closed := ⟨Nat.toDigits_ne_nil, nofun⟩

theorem numeral_ofNat (n : Nat) :
    (ofNat n).numeral = ⟨false, n, 0, true, (Nat.toDigits 10 n).length, true⟩ := by
  have hdigits : Numeral.ofDigits (digitValues (Nat.toDigits 10 n)) = n := by
    rw [ofDigits_digitValues fun c hc => Nat.isDigit_of_mem_toDigits (by decide) (by decide) hc]
    exact Nat.ofDigitChars_ten_toDigits
  simp [numeral, ofNat, hdigits]

/-- The digits of a whole number are its numeral, or that of infinity where no double is near it. -/
theorem numeralNumber_ofNat (n : Nat) : Value.numeralNumber (ofNat n).numeral =
    .ok (if HasDouble n then .int n else .float (ofMagnitude false infinityBits)) := by
  have hwhole := @isWhole_ofDecimal_iff false n
  have hdouble := hasDouble_iff n
  rw [Int.natAbs_natCast] at hdouble
  rw [numeral_ofNat]
  simp only [Value.numeralNumber, Numeral.toFloat, Bool.not_true, Bool.false_eq_true, if_false, Bool.true_and]
  by_cases hn : HasDouble n
  · have hsmall := hdouble.1 hn
    have hsize : (Nat.toDigits 10 n).length ≤ Value.maxNumeralSize := (length_toDigits_le hsmall).trans (by decide)
    rw [if_pos (hwhole.2 hsmall), if_pos hsize, if_pos hn]
    rfl
  · have hlarge : infinityBits ≤ nearestBits n 1 := by
      rw [hdouble, ← nearestBits_lt_infinity_iff] at hn
      omega
    rw [if_neg (mt hwhole.1 (mt hdouble.2 hn)), if_neg hn, ofDecimal_of_infinityBits_le hlarge]

/-! ## Doubles -/

theorem isDigits_replicate (n : Nat) : IsDigits (List.replicate n '0') := fun c hc => by
  obtain rfl := List.eq_of_mem_replicate hc
  rfl

theorem isDigits_append {ds es : List Char} (hds : IsDigits ds) (hes : IsDigits es) :
    IsDigits (ds ++ es) :=
  fun c hc => (List.mem_append.1 hc).elim (hds c) (hes c)

/-- Digits before a point and after it. -/
def ofParts (whole fraction : List Char) (hwhole : IsDigits whole) (hfraction : IsDigits fraction)
    (hne : whole ≠ []) : Spelling :=
  ⟨[], whole, some fraction, none, isSign_nil, hwhole, hfraction, .inl hne⟩

/-- The exponent of a double that is too large or too small to be written out. -/
def exponentOf (e : Int) : ExponentSpelling where
  letter := 'e'
  sign := if e < 0 then ['-'] else ['+']
  digits := (if e.natAbs < 10 then ['0'] else []) ++ Nat.toDigits 10 e.natAbs
  letter_eq := .inl rfl
  isSign := by split <;> simp [IsSign]
  isDigits := by
    refine isDigits_append ?_ (isDigits_toDigits _)
    split
    · exact isDigits_replicate 1
    · exact nofun
  ne_nil := by simp [Nat.toDigits_ne_nil]

/-- The text of a double is a spelling with a point or an exponent, and with digits around its point. -/
structure IsDouble (text : String) : Prop where
  exists_spelling : ∃ sp : Spelling, text = String.ofList sp.chars ∧ sp.sign = [] ∧ sp.Closed ∧
    sp.numeral.plain = false

theorem isDouble_ofParts {whole fraction : List Char} (hwhole : IsDigits whole) (hfraction : IsDigits fraction)
    (hne : whole ≠ []) (hne' : fraction ≠ []) : IsDouble (String.ofList (whole ++ '.' :: fraction)) :=
  ⟨ofParts whole fraction hwhole hfraction hne, by simp [ofParts, chars, point, exponent], rfl,
    ⟨hne, by simpa [ofParts] using hne'⟩, rfl⟩

/-- One digit, perhaps a point and more digits, and an exponent. -/
theorem isDouble_exponential (ds : List Char) (e : Int) : IsDigits ds → ds ≠ [] →
    IsDouble ((match ds with
        | [] => ""
        | [d] => d.toString
        | d :: rest => d.toString ++ "." ++ String.ofList rest) ++
      (if e < 0 then "e-" else "e+") ++ (if e.natAbs < 10 then "0" ++ toString e.natAbs else toString e.natAbs)) := by
  intro hds hne
  have hexponent : (if e < 0 then "e-" else "e+") ++
      (if e.natAbs < 10 then "0" ++ toString e.natAbs else toString e.natAbs) = String.ofList (exponentOf e).chars := by
    rw [Nat.toString_eq_ofList_toDigits]
    apply String.toList_inj.1
    unfold exponentOf ExponentSpelling.chars
    by_cases hnegative : e < 0 <;> by_cases hsmall : e.natAbs < 10 <;> simp [hnegative, hsmall]
  rw [String.append_assoc, hexponent]
  match ds with
  | [d] =>
    refine ⟨⟨[], [d], none, some (exponentOf e), .inl rfl, hds, nofun, .inl hne⟩, ?_, rfl, ⟨hne, nofun⟩, rfl⟩
    exact String.toList_inj.1 (by simp [chars, point, exponent])
  | d :: f :: rest =>
    have hd : IsDigits [d] := fun c hc => hds c (by simp_all)
    have hrest : IsDigits (f :: rest) := fun c hc => hds c (List.mem_cons_of_mem d hc)
    refine ⟨⟨[], [d], some (f :: rest), some (exponentOf e), .inl rfl, hd, hrest, .inl (by simp)⟩, ?_, rfl,
      ⟨by simp, by simp⟩, rfl⟩
    exact String.toList_inj.1 (by simp [chars, point, exponent])

theorem isDouble_layout (digits : Nat) (k : Int) : IsDouble (Double.layout digits k) := by
  have hds := isDigits_toDigits digits
  have hne : Nat.toDigits 10 digits ≠ [] := Nat.toDigits_ne_nil
  unfold Double.layout
  generalize Nat.toDigits 10 digits = ds at hds hne
  dsimp only
  split
  · split
    · have hzero : IsDigits ['0'] := isDigits_replicate 1
      have htext : IsDouble (String.ofList (['0'] ++ '.' :: (List.replicate (-(ds.length + k)).toNat '0' ++ ds))) :=
        isDouble_ofParts hzero (isDigits_append (isDigits_replicate _) hds) (by simp) (by simp [hne])
      convert htext using 1
      exact String.toList_inj.1 (by simp)
    · split
      · next hpoint =>
        have htext : IsDouble (String.ofList ((ds ++ List.replicate ((ds.length + k).toNat - ds.length) '0') ++
            '.' :: ['0'])) :=
          isDouble_ofParts (isDigits_append hds (isDigits_replicate _)) (isDigits_replicate 1) (by simp [hne]) (by simp)
        convert htext using 1
        exact String.toList_inj.1 (by simp)
      · next hpos hpoint =>
        have htake : ds.take (ds.length + k).toNat ≠ [] := by
          rw [ne_eq, List.take_eq_nil_iff]
          simp only [hne, or_false]
          omega
        have hdrop : ds.drop (ds.length + k).toNat ≠ [] := by
          rw [ne_eq, List.drop_eq_nil_iff]
          omega
        have htext := isDouble_ofParts (fun c hc => hds c (List.mem_of_mem_take hc))
          (fun c hc => hds c (List.mem_of_mem_drop hc)) htake hdrop
        convert htext using 1
        exact String.toList_inj.1 (by simp)
  · exact isDouble_exponential ds _ hds hne

theorem isDouble_text {x : Float} (h : (Double.parts? x).isSome) :
    ∃ body, Double.text x = (if Double.isNegative x then "-" else "") ++ body ∧ IsDouble body := by
  obtain ⟨p, hp⟩ := Option.isSome_iff_exists.1 h
  have hnan : x.isNaN = false := Double.isNaN_eq_false_of_parts? h
  unfold Double.text
  simp only [hnan, hp, Bool.false_eq_true, if_false]
  split
  · refine ⟨"0.0", rfl, ?_⟩
    exact isDouble_ofParts (isDigits_replicate 1) (isDigits_replicate 1) (by simp) (by simp)
  · exact ⟨_, rfl, isDouble_layout _ _⟩

end Flowline.Spelling
