import Flowline.Proofs.Expression.NumericTexts
import Flowline.Proofs.Sorting
import Flowline.Proofs.Time.Iso
import Flowline.Value.Collection

/-! # Sorting values

Keys are in a linear order within two families: whole numbers with what counts as one, and texts that are no
numerals. Of a mixture some keys are compared as numbers and others by their texts, which is no order; it is sorted
all the same, for the text of a value that is no number is no numeral, so that comparing texts does not fail. -/

namespace Flowline

/-! ## Numbers -/

namespace Number

open Double

/-- The place of a whole number or an infinity in the order of numbers. -/
def rank : Number → Int ×ₗ Int
  | .int n => toLex (0, n)
  | .float x => toLex (if isNegative x then -1 else 1, 0)

/-- Whole numbers and the infinities, which the numerals of too large ones stand for. -/
inductive Ranked : Number → Prop
  | int (n : Int) : Ranked (.int n)
  | infinite (negative : Bool) : Ranked (.float (ofMagnitude negative infinityBits))

theorem compareInt?_infinity (n : Int) (negative : Bool) :
    compareInt? n (ofMagnitude negative infinityBits) =
      some (compare (Number.int n).rank (Number.float (ofMagnitude negative infinityBits)).rank) := by
  have hinfinity : (ofMagnitude negative infinityBits).isNaN = false ∧
      parts? (ofMagnitude negative infinityBits) = none ∧ isNegative (ofMagnitude negative infinityBits) = negative := by
    cases negative <;> decide +kernel
  obtain ⟨hnan, hparts, hsign⟩ := hinfinity
  rw [compareInt?, hnan, hparts, rank, rank, hsign]
  cases negative with
  | false =>
    have hlt : toLex ((0 : Int), n) < toLex (1, 0) := Prod.Lex.toLex_lt_toLex.2 (.inl Int.zero_lt_one)
    exact congrArg some (compare_lt_iff_lt.2 hlt).symm
  | true =>
    have hgt : toLex (-1, 0) < toLex ((0 : Int), n) := Prod.Lex.toLex_lt_toLex.2 (.inl (Int.negSucc_lt_zero 0))
    exact congrArg some (compare_gt_iff_gt.2 hgt).symm

/-- Whole numbers and infinities are compared as their ranks are. -/
theorem compare?_of_ranked {a b : Number} (ha : a.Ranked) (hb : b.Ranked) :
    a.compare? b = some (compare a.rank b.rank) := by
  cases ha with
  | int m =>
    cases hb with
    | int n =>
      have hmono : StrictMono fun n : Int => toLex ((0 : Int), n) :=
        fun m n h => Prod.Lex.toLex_lt_toLex.2 (.inr ⟨rfl, h⟩)
      have hcompare := hmono.cmp_map_eq m n
      rw [cmp_eq_compare, cmp_eq_compare] at hcompare
      exact congrArg some hcompare.symm
    | infinite negative => exact compareInt?_infinity m negative
  | infinite negative =>
    cases hb with
    | int n =>
      rw [compare?, compareInt?_infinity n negative, Option.map_some, ← cmp_eq_compare, ← cmp_eq_compare, cmp_swap]
    | infinite other => cases negative <;> cases other <;> decide +kernel

end Number

namespace Value

open Double

/-! ## Numerals -/

/-- A numeral that has a number: no separator of records stands next to it, and the digits of a whole number near
a double are not too many. -/
structure Readable (n : Numeral) : Prop where
  legible : n.legible = true
  size_le : n.plain = true → isWhole n.toFloat = true → n.size ≤ maxNumeralSize

theorem exists_numeralNumber {n : Numeral} (h : Readable n) : ∃ x, numeralNumber n = .ok x := by
  unfold numeralNumber
  dsimp only
  rw [h.legible, Bool.not_true, if_neg Bool.false_ne_true]
  split
  · next hwhole =>
    rw [Bool.and_eq_true] at hwhole
    exact ⟨_, if_pos (h.size_le hwhole.1 hwhole.2)⟩
  · exact ⟨_, rfl⟩

/-- If the value is a numeral, it is one that has a number. -/
def IsReadable (v : Value) : Prop := ∀ s n, v = .str s → Numeral.whole? s = some n → Readable n

theorem IsReadable.numeral {s : String} {n : Numeral} (hread : Numeral.whole? s = some n) (h : Readable n) :
    (Value.str s).IsReadable := by
  rintro t m ⟨⟩ hm
  cases hread.symm.trans hm
  exact h

theorem exists_toNumber {v : Value} (hv : v.isOrdinal = true) (hreadable : v.IsReadable) : ∃ n, v.toNumber = .ok n := by
  unfold isOrdinal at hv
  split at hv
  · exact ⟨_, rfl⟩
  · exact ⟨_, rfl⟩
  · rcases isNumeric_cases hv with ⟨n, rfl⟩ | ⟨x, rfl⟩ | ⟨s, rfl⟩
    · exact ⟨_, rfl⟩
    · exact ⟨_, rfl⟩
    · obtain ⟨n, hn⟩ := Option.isSome_iff_exists.1 hv
      simp only [toNumber, hn]
      exact exists_numeralNumber (hreadable s n rfl hn)

/-! ## Two families -/

/-- What counts as a whole number: the numbers themselves, their numerals, truth values and null. -/
inductive Counted : Value → Prop
  | null : Counted .null
  | bool (b : Bool) : Counted (.bool b)
  | int (n : Int) : Counted (.int n)
  | numeral {s : String} {n : Numeral} (hread : Numeral.whole? s = some n) (hplain : n.plain = true) : Counted (.str s)

/-- The place of a value in the order of numbers. -/
def rank (v : Value) : Int ×ₗ Int :=
  match v.toNumber with
  | .ok n => n.rank
  | .error _ => toLex (0, 0)

theorem Counted.isOrdinal {v : Value} (h : v.Counted) : v.isOrdinal = true := by
  cases h with
  | numeral hread _ => exact Option.isSome_iff_exists.2 ⟨_, hread⟩
  | _ => rfl

theorem exponent_of_plain {s : String} {n : Numeral} (hread : Numeral.whole? s = some n) (hplain : n.plain = true) :
    n.exponent = 0 := by
  obtain ⟨sp, -, hsame⟩ := exists_spelling hread
  have hparts : sp.numeral.plain = true := by
    rw [← hsame]
    exact hplain
  have hexponent : n.exponent = sp.numeral.exponent := by rw [← hsame]
  simp only [Spelling.numeral, Bool.and_eq_true, Option.isNone_iff_eq_none] at hparts
  rw [hexponent, Spelling.numeral, hparts.1, hparts.2]
  rfl

theorem Counted.toNumber_ranked {v : Value} (h : v.Counted) (hreadable : v.IsReadable) :
    ∃ n, v.toNumber = .ok n ∧ n.Ranked := by
  cases h with
  | null => exact ⟨_, rfl, .int 0⟩
  | bool b => exact ⟨_, rfl, .int _⟩
  | int n => exact ⟨_, rfl, .int n⟩
  | @numeral s n hread hplain =>
    obtain ⟨number, hnumber⟩ := exists_toNumber (Counted.numeral hread hplain).isOrdinal hreadable
    refine ⟨number, hnumber, ?_⟩
    simp only [toNumber, hread, numeralNumber, hplain, Bool.true_and] at hnumber
    split at hnumber
    · cases hnumber
    split at hnumber
    · split at hnumber
      · cases hnumber
        exact .int _
      · cases hnumber
    · next hwhole =>
      cases hnumber
      rw [Numeral.toFloat, exponent_of_plain hread hplain] at hwhole ⊢
      have hlarge : infinityBits ≤ nearestBits n.digits 1 := by
        rw [isWhole_ofDecimal_iff, ← nearestBits_lt_infinity_iff] at hwhole
        omega
      rw [ofDecimal_of_infinityBits_le hlarge]
      exact .infinite n.negative

/-- What counts as whole numbers is compared as numbers. -/
theorem order_of_counted {a b : Value} (ha : a.Counted) (hb : b.Counted) (hareadable : a.IsReadable)
    (hbreadable : b.IsReadable) : order a b = .ok (compare a.rank b.rank) := by
  obtain ⟨m, hm, hmranked⟩ := ha.toNumber_ranked hareadable
  obtain ⟨n, hn, hnranked⟩ := hb.toNumber_ranked hbreadable
  rw [order_of_isOrdinal ha.isOrdinal hb.isOrdinal, rank, rank, hm, hn]
  exact congrArg (fun o => Except.ok (Option.getD o .eq)) (Number.compare?_of_ranked hmranked hnranked)

/-- A text that is no numeral. -/
def IsWord (v : Value) : Prop := ∃ s, v = .str s ∧ v.isNumeric = false

theorem compareText_eq_compare (s t : String) : compareText s t = compare s t := by
  unfold compareText
  rcases lt_trichotomy s t with h | rfl | h
  · rw [if_pos h, compare_lt_iff_lt.2 h]
  · rw [if_neg (lt_irrefl s), if_neg (lt_irrefl s), compare_eq_iff_eq.2 rfl]
  · rw [if_neg h.asymm, if_pos h, compare_gt_iff_gt.2 h]

/-- Words are compared as texts. -/
theorem order_of_isWord {a b : Value} (ha : a.IsWord) (hb : b.IsWord) : order a b = .ok (compare a.text b.text) := by
  obtain ⟨s, rfl, hs⟩ := ha
  obtain ⟨t, rfl, -⟩ := hb
  rw [order, hs, Bool.false_and]
  exact congrArg Except.ok (compareText_eq_compare s t)

/-! ## Texts in place of values -/

open Text

theorem isNumeric_eq_false {s : String} {c : Char} {cs : List Char} (hs : s.toList = c :: cs) (hc : isBlank c = false)
    (hread : ∀ n rest, Numeral.unblanked? (c :: cs) = some (n, rest) → rest.all isBlank = false) :
    (Value.str s).isNumeric = false := by
  have hdrop : (c :: cs).dropWhile isBlank = c :: cs := by simp [hc]
  simp only [isNumeric, Numeral.whole?, hs, hdrop]
  split
  · next n rest hsome => simp [hread n rest hsome]
  · rfl

/-- No numeral begins with a character that is no digit, no sign and no point. -/
theorem isNumeric_eq_false_of_head {s : String} {c : Char} {cs : List Char} (hs : s.toList = c :: cs)
    (hblank : isBlank c = false) (hdigit : isDecimal c = false) (hother : c ∉ ['+', '-', '.']) :
    (Value.str s).isNumeric = false := by
  refine isNumeric_eq_false hs hblank fun n rest hread => ?_
  simp only [List.mem_cons, List.not_mem_nil, or_false, not_or] at hother
  obtain ⟨hplus, hminus, hpoint⟩ := hother
  simp [Numeral.unblanked?, Numeral.spanSign, Numeral.spanDigits, decimalValue?_eq_none_iff.2 hdigit, hplus, hminus,
    hpoint] at hread

/-- A dash after digits ends a numeral. -/
theorem isNumeric_eq_false_of_dash {s : String} {ds rest : List Char} (hs : s.toList = ds ++ '-' :: rest)
    (hds : IsDigits ds) (hne : ds ≠ []) : (Value.str s).isNumeric = false := by
  obtain ⟨d, ds, rfl⟩ := List.exists_cons_of_ne_nil hne
  have hdigit := hds d (List.mem_cons_self ..)
  refine isNumeric_eq_false hs (not_isBlank_of_isDecimal hdigit) fun n tail hread => ?_
  have hsign : NoSignAhead (d :: ds ++ '-' :: rest) := hds.noSignAhead hne
  have hdash : NoDigitAhead ('-' :: rest) := by
    rintro c ⟨⟩
    rfl
  have hspan : Numeral.spanSign (d :: ds ++ '-' :: rest) = (false, d :: ds ++ '-' :: rest) :=
    Numeral.spanSign_append isSign_nil hsign
  rw [List.append_eq, ← List.cons_append, Numeral.unblanked?_of_no_point hspan hds hdash (by simp) hne] at hread
  cases Option.some.inj hread
  rfl

theorem exists_bracketed (style : Json.Style) (level : Nat) (opening closing : String) (parts : List String) :
    ∃ rest, (Json.bracketed style level opening closing parts).toList = opening.toList ++ rest := by
  unfold Json.bracketed
  split
  · exact ⟨_, String.toList_append⟩
  · split <;> simp only [String.append_assoc, String.toList_append] <;> exact ⟨_, rfl⟩

/-- The text of a date begins with its year and a dash. -/
theorem isNumeric_eq_false_of_date {s : String} {d : Date} {rest : List Char}
    (hs : s.toList = d.isoText.toList ++ rest) : (Value.str s).isNumeric = false := by
  have hdash : s.toList =
      Date.digits 4 d.year ++ '-' :: (Date.digits 2 d.month ++ '-' :: Date.digits 2 d.day ++ rest) := by
    rw [hs, Moment.Iso.toList_isoText, List.append_assoc]
    rfl
  have hyear : IsDigits (Date.digits 4 d.year) :=
    Spelling.isDigits_append (Spelling.isDigits_replicate _) (Spelling.isDigits_toDigits _)
  exact isNumeric_eq_false_of_dash hdash hyear (List.append_ne_nil_of_right_ne_nil _ Nat.toDigits_ne_nil)

theorem isNumeric_text_set (items : List Scalar) : (Value.str (Value.set items).text).isNumeric = false := by
  have htext : (Value.set items).text =
      if items.isEmpty then "set()" else "\x7b" ++ ", ".intercalate (items.map Scalar.quoted) ++ "\x7d" := rfl
  rw [htext]
  split
  · rfl
  · rw [String.append_assoc]
    exact isNumeric_eq_false_of_head String.toList_append rfl rfl (by decide)

/-- The text of a value that has no place in the order of numbers is no numeral. -/
theorem isNumeric_display {v : Value} {text : String} (hv : v.isOrdinal = false) (h : v.display = .ok text) :
    (Value.str text).isNumeric = false := by
  match v, hv with
  | .scalar s, hv =>
    cases s with
    | null | bool | int | float => cases hv
    | str s =>
      cases h
      exact hv
    | date d =>
      obtain rfl : d.isoText = text := Except.ok.inj h
      exact isNumeric_eq_false_of_date (List.append_nil _).symm
    | moment m =>
      obtain rfl : m.text = text := Except.ok.inj h
      have htext : ∃ rest, m.text.toList = m.date.isoText.toList ++ rest := by
        simp only [Moment.text, Moment.textWith, String.append_assoc, String.toList_append]
        exact ⟨_, rfl⟩
      obtain ⟨rest, hrest⟩ := htext
      exact isNumeric_eq_false_of_date hrest
    | bytes b =>
      obtain rfl : quotedBytes b = text := Except.ok.inj h
      exact isNumeric_eq_false_of_head String.toList_ofList rfl rfl (by decide)
  | .list items, _ =>
    obtain ⟨texts, -, htext⟩ := bind_eq_ok.1 h
    cases htext
    obtain ⟨rest, hrest⟩ := exists_bracketed .display 0 "[" "]" texts
    exact isNumeric_eq_false_of_head hrest rfl rfl (by decide)
  | .map entries, _ =>
    obtain ⟨texts, -, htext⟩ := bind_eq_ok.1 h
    cases htext
    obtain ⟨rest, hrest⟩ := exists_bracketed .display 0 "\x7b" "\x7d" texts
    exact isNumeric_eq_false_of_head hrest rfl rfl (by decide)
  | .set items, _ =>
    obtain rfl := (written_eq_ok_iff.1 h).2
    exact isNumeric_text_set items

/-! ## Comparing -/

section Before

variable {a b : Value}

/-- Values of which one has no place in the order of numbers have no order, unless they are texts. -/
theorem order_of_not_isOrdinal (h : (a.isOrdinal && b.isOrdinal) = false) :
    (∃ o, order a b = .ok o) ∨ ∃ cause, order a b = .error (.expression cause) := by
  have hnot : ¬(a.isOrdinal && b.isOrdinal) = true := ne_true_of_eq_false h
  unfold order
  split
  · exact .inl ⟨_, if_neg hnot⟩
  · exact .inr ⟨_, if_neg hnot⟩

theorem before_of_order {o : Ordering} (h : order a b = .ok o) : before a b = .ok (o == .lt) := by
  rw [before, h]

/-- Values that have texts can be compared if the numerals among them can be read. -/
theorem exists_before {s t : String} (ha : a.display = .ok s) (hb : b.display = .ok t) (hareadable : a.IsReadable)
    (hbreadable : b.IsReadable) : ∃ r, before a b = .ok r := by
  by_cases hordinal : (a.isOrdinal && b.isOrdinal) = true
  · obtain ⟨haordinal, hbordinal⟩ := Bool.and_eq_true_iff.1 hordinal
    obtain ⟨m, hm⟩ := exists_toNumber haordinal hareadable
    obtain ⟨n, hn⟩ := exists_toNumber hbordinal hbreadable
    rw [before, order_of_isOrdinal haordinal hbordinal, hm, hn]
    exact ⟨_, rfl⟩
  · have hnot := Bool.eq_false_of_not_eq_true hordinal
    rcases order_of_not_isOrdinal hnot with ⟨o, ho⟩ | ⟨cause, hcause⟩
    · exact ⟨_, before_of_order ho⟩
    · have hwords : ¬((Value.str s).isNumeric && (Value.str t).isNumeric) = true := by
        rcases Bool.and_eq_false_iff.1 hnot with h | h
        · simp [isNumeric_display h ha]
        · simp [isNumeric_display h hb]
      have htexts : order (.str s) (.str t) = .ok (compareText s t) := if_neg hwords
      rw [before, hcause]
      dsimp only
      rw [ha, hb, ok_bind, ok_bind, htexts]
      exact ⟨_, rfl⟩

end Before

/-! ## Keys -/

/-- Whether one item comes before another by their keys. -/
def precedes (key a b : Value) : Except Fault Bool := do before (← sortKey key a) (← sortKey key b)

theorem sorted_eq (vs : List Value) (key : Value) (descending : Bool) : sorted vs key descending =
    if descending then Sorting.sortDescending (precedes key) vs else Sorting.sort (precedes key) vs := rfl

/-- Items whose keys are equal. -/
def ties (keyOf : Value → Value) (a b : Value) : Bool := (order (keyOf a) (keyOf b)).toOption == some .eq

/-- Items in the order of their keys, those of equal keys in the order that they were in. -/
structure SortedBy (keyOf : Value → Value) (descending : Bool) (vs ys : List Value) : Prop where
  perm : ys.Perm vs
  pairwise : ys.Pairwise fun a b => ∃ o, order (keyOf a) (keyOf b) = .ok o ∧
    (o = .eq ∨ o = if descending then .gt else .lt)
  filter_eq : ∀ v ∈ vs, ys.filter (ties keyOf v) = vs.filter (ties keyOf v)

variable {vs ys : List Value} {key : Value} {descending : Bool} {keyOf : Value → Value}

theorem precedes_eq {a b : Value} (hkeys : ∀ v ∈ vs, sortKey key v = .ok (keyOf v)) (ha : a ∈ vs) (hb : b ∈ vs) :
    precedes key a b = before (keyOf a) (keyOf b) := by
  rw [precedes, hkeys a ha, hkeys b hb]
  rfl

/-- Every result of sorting is all of the items, and sorting fails where a comparison of two items does. -/
theorem meets_sorted (vs : List Value) (key : Value) (descending : Bool) :
    Sorting.Meets (Sorting.OfComparisons (precedes key) vs) (·.Perm vs) (sorted vs key descending) := by
  rw [sorted_eq]
  cases descending with
  | false =>
    have h := @Sorting.meets_sort _ _ _ (precedes key) rank vs vs (List.Subset.refl vs)
    exact ⟨h.1, fun ys hys => (h.2 ys hys).1⟩
  | true =>
    have h := @Sorting.meets_sortDescending _ _ _ (precedes key) rank vs vs (List.Subset.refl vs)
    exact ⟨h.1, fun ys hys => (h.2 ys hys).1⟩

theorem exists_sorted (hcompare : ∀ a ∈ vs, ∀ b ∈ vs, ∃ r, precedes key a b = .ok r) (descending : Bool) :
    ∃ ys, sorted vs key descending = .ok ys := by
  refine ((meets_sorted vs key descending).1.mono ?_).exists_ok
  rintro fault ⟨a, ha, b, hb, hfault⟩
  obtain ⟨r, hr⟩ := hcompare a ha b hb
  rw [hr] at hfault
  cases hfault

section Ranks

variable {β : Type} [LinearOrder β] {rankOf : Value → β}

theorem ties_eq {a b : Value} (h : order (keyOf a) (keyOf b) = .ok (compare (rankOf a) (rankOf b))) :
    ties keyOf a b = decide (rankOf b = rankOf a) := by
  have hcompare : ties keyOf a b = (some (compare (rankOf a) (rankOf b)) == some .eq) := by
    rw [ties, h]
    rfl
  rw [hcompare, Bool.eq_iff_iff, beq_iff_eq, Option.some_inj, compare_eq_iff_eq, decide_eq_true_iff, eq_comm]

/-- Keys that are in the order of ranks are sorted in that order. -/
theorem exists_sortedBy (hkeys : ∀ v ∈ vs, sortKey key v = .ok (keyOf v))
    (horder : ∀ a ∈ vs, ∀ b ∈ vs, order (keyOf a) (keyOf b) = .ok (compare (rankOf a) (rankOf b))) (descending : Bool) :
    ∃ ys, sorted vs key descending = .ok ys ∧ SortedBy keyOf descending vs ys := by
  have hagrees : Sorting.Agrees (precedes key) rankOf vs := by
    intro a ha b hb
    rw [precedes_eq hkeys ha hb, before_of_order (horder a ha b hb)]
    refine congrArg Except.ok ?_
    rw [Bool.eq_iff_iff, beq_iff_eq, compare_lt_iff_lt, decide_eq_true_iff]
  obtain ⟨ys, hys⟩ := exists_sorted (fun a ha b hb => ⟨_, hagrees a ha b hb⟩) descending
  have hperm := (meets_sorted vs key descending).2 ys hys
  have hmem {v : Value} : v ∈ ys → v ∈ vs := hperm.mem_iff.1
  have hfilter (v : Value) (hv : v ∈ vs) (h : ys.filter (rankOf · = rankOf v) = vs.filter (rankOf · = rankOf v)) :
      ys.filter (ties keyOf v) = vs.filter (ties keyOf v) := by
    rwa [List.filter_congr (fun w hw => ties_eq (horder v hv w (hmem hw))),
      List.filter_congr (fun w hw => ties_eq (horder v hv w hw))]
  refine ⟨ys, hys, ?_⟩
  rw [sorted_eq] at hys
  cases descending with
  | false =>
    have hordered := ((Sorting.meets_sort rankOf (List.Subset.refl vs)).2 ys hys).2 hagrees
    refine ⟨hperm, hordered.pairwise.imp_of_mem fun ha hb hle => ⟨_, horder _ (hmem ha) _ (hmem hb), ?_⟩,
      fun v hv => hfilter v hv (hordered.filter_eq _)⟩
    rcases hle.lt_or_eq with hlt | heq
    · exact .inr (compare_lt_iff_lt.2 hlt)
    · exact .inl (compare_eq_iff_eq.2 heq)
  | true =>
    have hordered := ((Sorting.meets_sortDescending rankOf (List.Subset.refl vs)).2 ys hys).2 hagrees
    refine ⟨hperm, hordered.pairwise.imp_of_mem fun ha hb hge => ⟨_, horder _ (hmem ha) _ (hmem hb), ?_⟩,
      fun v hv => hfilter v hv (hordered.filter_eq _)⟩
    rcases hge.lt_or_eq with hgt | heq
    · exact .inr (compare_gt_iff_gt.2 hgt)
    · exact .inl (compare_eq_iff_eq.2 heq.symm)

end Ranks

/-- Sorting a list, or a mapping by its values. A result is all of the items, and sorting fails only where comparing
two of the items does. If each item has a key that has a text, and the numerals among the keys have numbers, there
is a result. If moreover the keys are whole numbers or what counts as one, or if they are texts that are no
numerals, the result is in their order, in either direction with items of equal keys as they were. -/
theorem sorted_stable {collection : Value}
    (hcollection : collection = .list vs ∨ ∃ entries, collection = .map entries ∧ entries.map (·.2) = vs)
    (key : Value) (descending : Bool) :
    collection.items = .ok vs ∧
    (∀ ys, sorted vs key descending = .ok ys → ys.Perm vs) ∧
    FailsOnly (Sorting.OfComparisons (precedes key) vs) (sorted vs key descending) ∧
    ∀ keyOf : Value → Value, (∀ v ∈ vs, sortKey key v = .ok (keyOf v) ∧ (keyOf v).IsReadable) →
      ((∀ v ∈ vs, ∃ text, (keyOf v).display = .ok text) → ∃ ys, sorted vs key descending = .ok ys ∧ ys.Perm vs) ∧
      ((∀ v ∈ vs, (keyOf v).Counted) ∨ (∀ v ∈ vs, (keyOf v).IsWord) →
        ∃ ys, sorted vs key descending = .ok ys ∧ SortedBy keyOf descending vs ys) := by
  have hitems : collection.items = .ok vs := by
    rcases hcollection with rfl | ⟨entries, rfl, rfl⟩
    · cases vs <;> rfl
    · rfl
  refine ⟨hitems, (meets_sorted vs key descending).2, (meets_sorted vs key descending).1, fun keyOf hkeys => ⟨?_, ?_⟩⟩
  · intro htexts
    have hcompare : ∀ a ∈ vs, ∀ b ∈ vs, ∃ r, precedes key a b = .ok r := by
      intro a ha b hb
      obtain ⟨s, hs⟩ := htexts a ha
      obtain ⟨t, ht⟩ := htexts b hb
      rw [precedes_eq (fun v hv => (hkeys v hv).1) ha hb]
      exact exists_before hs ht (hkeys a ha).2 (hkeys b hb).2
    obtain ⟨ys, hys⟩ := exists_sorted hcompare descending
    exact ⟨ys, hys, (meets_sorted vs key descending).2 ys hys⟩
  · have hsortKey := fun v hv => (hkeys v hv).1
    have hreadable := fun v hv => (hkeys v hv).2
    rintro (hcounted | hwords)
    · have horder : ∀ a ∈ vs, ∀ b ∈ vs, order (keyOf a) (keyOf b) = .ok (compare (keyOf a).rank (keyOf b).rank) :=
        fun a ha b hb => order_of_counted (hcounted a ha) (hcounted b hb) (hreadable a ha) (hreadable b hb)
      exact exists_sortedBy hsortKey horder descending
    · have horder : ∀ a ∈ vs, ∀ b ∈ vs, order (keyOf a) (keyOf b) = .ok (compare (keyOf a).text (keyOf b).text) :=
        fun a ha b hb => order_of_isWord (hwords a ha) (hwords b hb)
      exact exists_sortedBy hsortKey horder descending

/-- The sizes of four jobs, the largest first. -/
theorem sorted_stable_jobs :
    ∃ ys, sorted [.str "10", .int 9, .bool true, .str " 9 "] .null true = .ok ys ∧
      SortedBy id true [.str "10", .int 9, .bool true, .str " 9 "] ys := by
  have hten : Numeral.whole? "10" = some ⟨false, 10, 0, true, 2, true⟩ := rfl
  have hnine : Numeral.whole? " 9 " = some ⟨false, 9, 0, true, 1, true⟩ := rfl
  have hjobs : ∃ entries, Value.object [("a", .str "10"), ("b", .int 9), ("c", .bool true), ("d", .str " 9 ")] =
      .map entries ∧ entries.map (·.2) = [.str "10", .int 9, .bool true, .str " 9 "] := ⟨_, rfl, rfl⟩
  have hkeys : ∀ v ∈ [.str "10", .int 9, .bool true, .str " 9 "], sortKey .null v = .ok (id v) ∧ (id v).IsReadable := by
    simp only [List.forall_mem_cons]
    exact ⟨⟨rfl, .numeral hten ⟨rfl, fun _ _ => by decide⟩⟩, ⟨rfl, nofun⟩, ⟨rfl, nofun⟩,
      ⟨rfl, .numeral hnine ⟨rfl, fun _ _ => by decide⟩⟩, nofun⟩
  have hcounted : ∀ v ∈ [.str "10", .int 9, .bool true, .str " 9 "], (id v : Value).Counted := by
    simp only [List.forall_mem_cons]
    exact ⟨.numeral hten rfl, .int 9, .bool true, .numeral hnine rfl, nofun⟩
  exact ((sorted_stable (.inr hjobs) .null true).2.2.2 id hkeys).2 (.inl hcounted)

example : (sorted [.str "10", .int 9, .bool true, .str " 9 "] .null true).toOption.map (·.map quoted) =
    some ["'10'", "9", "' 9 '", "True"] := by decide +kernel

/-- A separator of records is a blank that has no place beside a numeral. -/
theorem sorted_fails_beside_separator :
    (Value.str "\x1c1").Counted ∧ (Value.int 2).Counted ∧ (Value.str "\x1c1").display = .ok "\x1c1" ∧
      sorted [.str "\x1c1", .int 2] .null false = .error .badValue := by
  have hone : Numeral.whole? "\x1c1" = some ⟨false, 1, 0, true, 1, false⟩ := rfl
  exact ⟨.numeral hone rfl, .int 2, rfl, rfl⟩

end Value

end Flowline
