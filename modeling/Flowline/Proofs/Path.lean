import Flowline.Proofs.Value.Faults

/-! # Paths step by step

What a path names is found by steps: its segments lie between points, a segment with an index in brackets is two
steps, and each step goes from a mapping to the value under a key, or from a list to the item at an index. Lookup does
this for every path and every value, up to the first step that leads nowhere. It fails only where a list is asked for an
index that looks like a number and is none. -/

namespace Flowline.Path

open Text

variable {key index segment digits : List Char} {keys : List (List Char)} {v w : Value} {items : List Value} {i : Int}
  {fault : Fault} {n : Nat}

/-! ## Indices -/

/-- The number that decimal digits are written for. -/
def numeralValue (digits : List Char) : Nat := Numeral.ofDigits (digitValues digits)

/-- Decimal digits, no more of them than a whole number is read from. -/
structure IsNumeral (digits : List Char) : Prop where
  ne_nil : digits ≠ []
  isDigits : IsDigits digits
  size : digits.length ≤ Value.maxNumeralSize

/-- A key of digits, or of digits after a dash, is an index. -/
inductive IsIndex : List Char → Int → Prop
  | front {digits : List Char} (h : IsNumeral digits) : IsIndex digits (numeralValue digits)
  | back {digits : List Char} (h : IsNumeral digits) : IsIndex ('-' :: digits) (-numeralValue digits)

/-- Digits of any form after dashes that are no number: there is more than one dash, or a digit that no numeral is
written in, or there are too many digits. -/
def Illegible (key : List Char) : Prop :=
  ∃ n digits, key = List.replicate n '-' ++ digits ∧ digits ≠ [] ∧ (∀ c ∈ digits, isDigitLike c = true) ∧
    (1 < n ∨ ¬IsNumeral digits)

theorem isDigitLike_of_isDecimal {c : Char} (h : isDecimal c = true) : isDigitLike c = true := by
  simp [isDigitLike, h]

theorem dropWhile_dashes (n : Nat) (hlike : ∀ c ∈ digits, isDigitLike c = true) :
    (List.replicate n '-' ++ digits).dropWhile (· == '-') = digits := by
  induction n with
  | zero =>
    cases digits with
    | nil => rfl
    | cons d ds =>
      have hd : ¬(d == '-') = true := fun hdash => by
        have hlike := hlike d (by simp)
        rw [beq_iff_eq.1 hdash] at hlike
        revert hlike
        decide +kernel
      simp [hd]
  | succ n ih => simpa [List.replicate_succ] using ih

theorem index?_dashes (n : Nat) (hne : digits ≠ []) (hlike : ∀ c ∈ digits, isDigitLike c = true) :
    index? (List.replicate n '-' ++ digits) =
      if 1 < n || !digits.all isDecimal || Value.maxNumeralSize < digits.length then .error .badValue
      else .ok (some (if n = 1 then -(numeralValue digits : Int) else numeralValue digits)) := by
  have hall : digits.all isDigitLike = true := List.all_eq_true.2 hlike
  have hempty : digits.isEmpty = false := List.isEmpty_eq_false_iff.2 hne
  have hdashes : (List.replicate n '-' ++ digits).length - digits.length = n := by simp
  unfold index?
  simp only [dropWhile_dashes n hlike, hall, hempty, hdashes, Bool.not_true, Bool.or_self, Bool.false_eq_true, if_false]
  rfl

theorem illegible_iff (n : Nat) (hne : digits ≠ []) :
    (1 < n || !digits.all isDecimal || Value.maxNumeralSize < digits.length) = true ↔ 1 < n ∨ ¬IsNumeral digits := by
  have hnumeral : IsNumeral digits ↔ IsDigits digits ∧ digits.length ≤ Value.maxNumeralSize :=
    ⟨fun h => ⟨h.isDigits, h.size⟩, fun h => ⟨hne, h.1, h.2⟩⟩
  simp only [hnumeral, IsDigits, Bool.or_eq_true, decide_eq_true_eq, Bool.not_eq_true', List.all_eq_false]
  grind

/-- Any other key is no index. -/
theorem index?_cases (key : List Char) : index? key = .ok none ∨
    ∃ n digits, key = List.replicate n '-' ++ digits ∧ digits ≠ [] ∧ ∀ c ∈ digits, isDigitLike c = true := by
  have hsplit := List.takeWhile_append_dropWhile (p := (· == '-')) (l := key)
  have hdashes : key.takeWhile (· == '-') = List.replicate (key.takeWhile (· == '-')).length '-' :=
    List.eq_replicate_of_mem fun c hc => by simpa using List.mem_takeWhile_imp hc
  by_cases h : key.dropWhile (· == '-') ≠ [] ∧ (key.dropWhile (· == '-')).all isDigitLike = true
  · right
    exact ⟨_, _, by rw [← hdashes, hsplit], h.1, List.all_eq_true.1 h.2⟩
  · left
    unfold index?
    simp only
    rw [if_pos]
    grind

theorem index?_eq_error_iff : index? key = .error fault ↔ fault = .badValue ∧ Illegible key := by
  constructor
  · intro h
    obtain hnone | ⟨n, digits, rfl, hne, hlike⟩ := index?_cases key
    · rw [hnone] at h
      cases h
    rw [index?_dashes n hne hlike] at h
    split at h
    · next hillegible =>
      cases h
      exact ⟨rfl, n, digits, rfl, hne, hlike, (illegible_iff n hne).1 hillegible⟩
    · cases h
  · rintro ⟨rfl, n, digits, rfl, hne, hlike, hillegible⟩
    rw [index?_dashes n hne hlike, if_pos ((illegible_iff n hne).2 hillegible)]

theorem index?_of_isNumeral (h : IsNumeral digits) (hn : n ≤ 1) : index? (List.replicate n '-' ++ digits) =
    .ok (some (if n = 1 then -(numeralValue digits : Int) else numeralValue digits)) := by
  rw [index?_dashes n h.ne_nil fun c hc => isDigitLike_of_isDecimal (h.isDigits c hc),
    if_neg fun hillegible => ?_]
  rcases (illegible_iff n h.ne_nil).1 hillegible with hlt | hnot
  · omega
  · exact hnot h

theorem index?_eq_some_iff : index? key = .ok (some i) ↔ IsIndex key i := by
  constructor
  · intro h
    obtain hnone | ⟨n, digits, rfl, hne, hlike⟩ := index?_cases key
    · rw [hnone] at h
      cases h
    rw [index?_dashes n hne hlike] at h
    split at h
    · cases h
    · next hlegible =>
      obtain ⟨hn, hnumeral⟩ := not_or.1 (mt (illegible_iff n hne).2 hlegible)
      cases h
      match n, hn with
      | 0, _ => exact .front (Classical.not_not.1 hnumeral)
      | 1, _ => exact .back (Classical.not_not.1 hnumeral)
      | n + 2, hn => omega
  · intro h
    cases h with
    | front h => exact index?_of_isNumeral h (Nat.zero_le 1)
    | back h => exact index?_of_isNumeral h (Nat.le_refl 1)

/-! ## Steps -/

/-- The item at a place of a list; a place below zero is counted from the end. -/
inductive ItemAt (items : List Value) : Int → Value → Prop
  | front {n : Nat} {v : Value} (h : items[n]? = some v) : ItemAt items n v
  | back {n : Nat} {v : Value} (h : items.reverse[n]? = some v) : ItemAt items (-(n + 1 : Nat)) v

/-- A part of a value: what a mapping has under a key, or the item of a list at an index. -/
inductive Part : Value → List Char → Value → Prop
  | entry {entries : List (Scalar × Value)} {key : List Char} {v : Value}
    (h : Entries.get? entries (.str (String.ofList key)) = some v) : Part (.map entries) key v
  | item {items : List Value} {key : List Char} {i : Int} {v : Value} (hkey : IsIndex key i) (h : ItemAt items i v) :
    Part (.list items) key v

theorem item?_natCast (items : List Value) (n : Nat) : item? items n = items[n]? := by
  simp [item?]

theorem item?_fromEnd (items : List Value) (n : Nat) : item? items (-(n + 1 : Nat)) = items.reverse[n]? := by
  unfold item?
  rw [if_neg (by omega)]
  by_cases hn : n < items.length
  · have hplace : (items.length + -((n + 1 : Nat) : Int)).toNat = items.length - 1 - n := by omega
    rw [if_pos (by omega), hplace, List.getElem?_reverse hn]
  · rw [if_neg (by omega), List.getElem?_eq_none (by simpa using hn)]

theorem item?_eq_some_iff : item? items i = some v ↔ ItemAt items i v := by
  constructor
  · intro h
    cases i with
    | ofNat n => exact .front ((item?_natCast items n).symm.trans h)
    | negSucc n => exact .back ((item?_fromEnd items n).symm.trans h)
  · intro h
    cases h with
    | front h => rwa [item?_natCast]
    | back h => rwa [item?_fromEnd]

theorem step_list (items : List Value) (key : List Char) : step (.list items) key =
    (index? key).map fun place? => place?.bind (item? items) := by
  rw [step]
  rcases index? key with _ | _ | _ <;> rfl

theorem step_eq_some_iff : step v key = .ok (some w) ↔ Part v key w := by
  constructor
  · intro h
    cases v with
    | map entries => exact .entry (Except.ok.inj h)
    | list items =>
      rw [step_list] at h
      cases hplace : index? key with
      | error fault =>
        rw [hplace] at h
        cases h
      | ok place? =>
        rw [hplace] at h
        obtain ⟨i, rfl, hitem⟩ := Option.bind_eq_some_iff.1 (Except.ok.inj h)
        exact .item (index?_eq_some_iff.1 hplace) (item?_eq_some_iff.1 hitem)
    | _ => cases h
  · intro h
    cases h with
    | entry h => exact congrArg Except.ok h
    | item hkey h =>
      rw [step_list, index?_eq_some_iff.2 hkey]
      exact congrArg Except.ok (item?_eq_some_iff.2 h)

theorem step_eq_error_iff : step v key = .error fault ↔
    fault = .badValue ∧ (∃ items, v = .list items) ∧ Illegible key := by
  cases v with
  | list items =>
    have hmap : step (.list items) key = .error fault ↔ index? key = .error fault := by
      rw [step_list]
      cases index? key <;> simp [Except.map]
    rw [hmap, index?_eq_error_iff]
    simp
  | map | scalar | set => exact ⟨nofun, fun ⟨_, ⟨_, h⟩, _⟩ => nomatch h⟩

/-- What has no part of a name: a mapping without the key, a list without an item at the index, a list that is asked for
something that is no index, and a value without parts. -/
inductive Absent : Value → List Char → Prop
  | entry {entries : List (Scalar × Value)} {key : List Char}
    (h : Entries.get? entries (.str (String.ofList key)) = none) : Absent (.map entries) key
  | item {items : List Value} {key : List Char} {i : Int} (hkey : IsIndex key i) (h : ∀ v, ¬ItemAt items i v) :
    Absent (.list items) key
  | index {items : List Value} {key : List Char} (hnone : ∀ i, ¬IsIndex key i) (hlegible : ¬Illegible key) :
    Absent (.list items) key
  | scalar (s : Scalar) (key : List Char) : Absent (.scalar s) key
  | set (items : List Scalar) (key : List Char) : Absent (.set items) key

theorem step_eq_none_iff : step v key = .ok none ↔ Absent v key := by
  cases v with
  | map entries =>
    constructor
    · intro h
      exact .entry (Except.ok.inj h)
    · intro h
      cases h with
      | entry h => exact congrArg Except.ok h
  | list items =>
    rw [step_list]
    constructor
    · intro h
      cases hplace : index? key with
      | error fault =>
        rw [hplace] at h
        cases h
      | ok place? =>
        rw [hplace] at h
        cases place? with
        | none =>
          refine .index (fun i hi => ?_) fun hkey => ?_
          · rw [index?_eq_some_iff.2 hi] at hplace
            cases hplace
          · rw [index?_eq_error_iff.2 ⟨rfl, hkey⟩] at hplace
            cases hplace
        | some i =>
          have hitem : item? items i = none := Except.ok.inj h
          refine .item (index?_eq_some_iff.1 hplace) fun v hv => ?_
          rw [item?_eq_some_iff.2 hv] at hitem
          cases hitem
    · intro h
      cases h with
      | @item _ _ i hkey h =>
        have hitem : item? items i = none :=
          Option.eq_none_iff_forall_ne_some.2 fun v hv => h v (item?_eq_some_iff.1 hv)
        rw [index?_eq_some_iff.2 hkey]
        exact congrArg Except.ok hitem
      | index hnone hlegible =>
        cases hplace : index? key with
        | error fault => exact absurd (index?_eq_error_iff.1 hplace).2 hlegible
        | ok place? =>
          cases place? with
          | none => rfl
          | some i => exact absurd (index?_eq_some_iff.1 hplace) (hnone i)
  | scalar s => exact ⟨fun _ => .scalar s key, fun _ => rfl⟩
  | set items => exact ⟨fun _ => .set items key, fun _ => rfl⟩

/-- Keys that lead from a value to a part at some depth. -/
inductive Follows : Value → List (List Char) → Value → Prop
  | here (v : Value) : Follows v [] v
  | step {v u w : Value} {key : List Char} {keys : List (List Char)} (h : Part v key u) (hrest : Follows u keys w) :
    Follows v (key :: keys) w

/-- Keys one of which is asked of a part that has nothing of that name. -/
inductive Misses : Value → List (List Char) → Prop
  | here {v : Value} {key : List Char} {keys : List (List Char)} (h : Absent v key) : Misses v (key :: keys)
  | later {v u : Value} {key : List Char} {keys : List (List Char)} (h : Part v key u) (hrest : Misses u keys) :
    Misses v (key :: keys)

/-- Keys one of which is asked of a list, and is an index that is no number. -/
inductive Stumbles : Value → List (List Char) → Prop
  | here {items : List Value} {key : List Char} {keys : List (List Char)} (h : Illegible key) :
    Stumbles (.list items) (key :: keys)
  | later {v u : Value} {key : List Char} {keys : List (List Char)} (h : Part v key u) (hrest : Stumbles u keys) :
    Stumbles v (key :: keys)

theorem follow_cons (v : Value) (key : List Char) (keys : List (List Char)) : follow v (key :: keys) =
    match step v key with
    | .ok (some u) => follow u keys
    | .ok none => .ok none
    | .error fault => .error fault := by
  rw [follow]
  rcases step v key with _ | _ | _ <;> rfl

theorem follow_eq_some_iff : follow v keys = .ok (some w) ↔ Follows v keys w := by
  induction keys generalizing v with
  | nil =>
    rw [follow]
    constructor
    · intro h
      obtain rfl := Option.some.inj (Except.ok.inj h)
      exact .here _
    · intro h
      cases h
      rfl
  | cons key keys ih =>
    rw [follow_cons]
    constructor
    · intro h
      split at h
      · next hstep => exact .step (step_eq_some_iff.1 hstep) (ih.1 h)
      · cases h
      · cases h
    · rintro ⟨⟩
      next hpart hrest =>
        rw [step_eq_some_iff.2 hpart]
        exact ih.2 hrest

theorem follow_eq_none_iff : follow v keys = .ok none ↔ Misses v keys := by
  induction keys generalizing v with
  | nil => exact ⟨nofun, nofun⟩
  | cons key keys ih =>
    rw [follow_cons]
    constructor
    · intro h
      split at h
      · next hstep => exact .later (step_eq_some_iff.1 hstep) (ih.1 h)
      · next hstep => exact .here (step_eq_none_iff.1 hstep)
      · cases h
    · intro h
      cases h with
      | here hkey => rw [step_eq_none_iff.2 hkey]
      | later hpart hrest =>
        rw [step_eq_some_iff.2 hpart]
        exact ih.2 hrest

theorem follow_eq_error_iff : follow v keys = .error fault ↔ fault = .badValue ∧ Stumbles v keys := by
  induction keys generalizing v with
  | nil => exact ⟨nofun, fun ⟨_, h⟩ => nomatch h⟩
  | cons key keys ih =>
    rw [follow_cons]
    constructor
    · intro h
      split at h
      · next hstep =>
        obtain ⟨rfl, hrest⟩ := ih.1 h
        exact ⟨rfl, .later (step_eq_some_iff.1 hstep) hrest⟩
      · cases h
      · next hstep =>
        cases h
        obtain ⟨rfl, ⟨items, rfl⟩, hkey⟩ := step_eq_error_iff.1 hstep
        exact ⟨rfl, .here hkey⟩
    · rintro ⟨rfl, h⟩
      cases h with
      | here hkey => rw [step_eq_error_iff.2 ⟨rfl, ⟨_, rfl⟩, hkey⟩]
      | later hpart hrest =>
        rw [step_eq_some_iff.2 hpart]
        exact ih.2 ⟨rfl, hrest⟩

/-! ## Segments -/

/-- A segment is a key, which may be empty, and an index in brackets after it. There is no line break in the key, and
one may follow the brackets. -/
inductive Indexed : List Char → List Char → List Char → Prop
  | mk {key index ending : List Char} (hkey : '\n' ∉ key) (hne : index ≠ []) (hindex : IsDigits index)
    (hending : ending = [] ∨ ending = ['\n']) : Indexed (key ++ '[' :: (index ++ ']' :: ending)) key index

/-- The segment without a line break at its end, the last character first. -/
def reversed (segment : List Char) : List Char :=
  match segment.reverse with
  | '\n' :: rest => rest
  | rest => rest

theorem reversed_cases (segment : List Char) : ∃ ending, (ending = [] ∨ ending = ['\n']) ∧
    segment = (reversed segment).reverse ++ ending := by
  unfold reversed
  split
  · next rest h => exact ⟨['\n'], .inr rfl, by rw [← List.reverse_cons, ← h, List.reverse_reverse]⟩
  · exact ⟨[], .inl rfl, by simp⟩

theorem reversed_append {cs ending : List Char} (hending : ending = [] ∨ ending = ['\n']) :
    reversed (cs ++ ']' :: ending) = ']' :: cs.reverse := by
  rcases hending with rfl | rfl <;> simp [reversed]

theorem bracketed?_eq (segment : List Char) : bracketed? segment =
    match reversed segment with
    | ']' :: rest =>
      match rest.takeWhile isDecimal, rest.dropWhile isDecimal with
      | _ :: _, '[' :: key => if key.contains '\n' then none else some (key.reverse, (rest.takeWhile isDecimal).reverse)
      | _, _ => none
    | _ => none := rfl

theorem bracketed?_eq_some_iff : bracketed? segment = some (key, index) ↔ Indexed segment key index := by
  constructor
  · intro h
    obtain ⟨ending, hending, hsegment⟩ := reversed_cases segment
    rw [bracketed?_eq] at h
    split at h
    · next rest hrest =>
      split at h
      · next d ds front hdigits hkey =>
        split at h
        · cases h
        · next hline =>
          cases h
          have hsplit := List.takeWhile_append_dropWhile (p := isDecimal) (l := rest)
          have hindex : IsDigits (rest.takeWhile isDecimal) := fun c hc => List.mem_takeWhile_imp hc
          generalize rest.takeWhile isDecimal = number at hsplit hindex hdigits
          rw [hsegment, hrest, ← hsplit, hkey, hdigits]
          have hreversed : IsDigits (d :: ds).reverse := fun c hc => hindex c (hdigits ▸ List.mem_reverse.1 hc)
          have hindexed : Indexed (front.reverse ++ '[' :: ((d :: ds).reverse ++ ']' :: ending)) front.reverse
              (d :: ds).reverse := .mk (by simpa using hline) (by simp) hreversed hending
          simpa using hindexed
      · cases h
    · cases h
  · intro h
    cases h with
    | @mk _ _ ending hkey hne hindex hending =>
    have hreversed : ∀ c ∈ index.reverse, isDecimal c = true := fun c hc => hindex c (List.mem_reverse.1 hc)
    have hbracket : isDecimal '[' = false := by decide +kernel
    have hsegment : key ++ '[' :: (index ++ ']' :: ending) = (key ++ '[' :: index) ++ ']' :: ending := by simp
    have hrest : (key ++ '[' :: index).reverse = index.reverse ++ '[' :: key.reverse := by simp
    have hdigits : (index.reverse ++ '[' :: key.reverse).takeWhile isDecimal = index.reverse := by
      rw [List.takeWhile_append_of_pos hreversed, List.takeWhile_cons_of_neg (by simp [hbracket]), List.append_nil]
    have hfront : (index.reverse ++ '[' :: key.reverse).dropWhile isDecimal = '[' :: key.reverse := by
      rw [List.dropWhile_append_of_pos hreversed, List.dropWhile_cons_of_neg (by simp [hbracket])]
    obtain ⟨d, ds, hcons⟩ := List.exists_cons_of_ne_nil (mt List.reverse_eq_nil_iff.1 hne)
    rw [hsegment, bracketed?_eq, reversed_append hending, hrest]
    simp only [hdigits, hfront]
    rw [hcons]
    simp only
    rw [← hcons, if_neg (by simpa using hkey), List.reverse_reverse, List.reverse_reverse]

/-- The steps of a segment: a key, or an index in brackets and before it a key if there is one. -/
inductive Stands : List Char → List (List Char) → Prop
  | plain {segment : List Char} (h : ∀ key index, ¬Indexed segment key index) : Stands segment [segment]
  | index {segment index : List Char} (h : Indexed segment [] index) : Stands segment [index]
  | keyed {segment key index : List Char} (h : Indexed segment key index) (hne : key ≠ []) : Stands segment [key, index]

theorem stands_iff {parts : List (List Char)} : Stands segment parts ↔ segmentSteps segment = parts := by
  unfold segmentSteps
  cases hbracketed : bracketed? segment with
  | none =>
    have hplain : ∀ key index, ¬Indexed segment key index := fun key index h => by
      rw [bracketed?_eq_some_iff.2 h] at hbracketed
      cases hbracketed
    constructor
    · intro h
      cases h with
      | plain => rfl
      | index h | keyed h => exact absurd h (hplain _ _)
    · rintro rfl
      exact .plain hplain
  | some p =>
    obtain ⟨key, index⟩ := p
    have hindexed := bracketed?_eq_some_iff.1 hbracketed
    have hunique {other number : List Char} (h : Indexed segment other number) : other = key ∧ number = index := by
      rw [bracketed?_eq_some_iff.2 h] at hbracketed
      simpa using hbracketed
    constructor
    · intro h
      cases h with
      | plain h => exact absurd hindexed (h key index)
      | index h =>
        obtain ⟨rfl, rfl⟩ := hunique h
        rfl
      | keyed h hne =>
        obtain ⟨rfl, rfl⟩ := hunique h
        split
        · next heq =>
          cases heq
          exact absurd rfl hne
        · next heq =>
          cases heq
          rfl
        · next heq => cases heq
    · rintro rfl
      cases key with
      | nil => exact .index hindexed
      | cons c key => exact .keyed hindexed (List.cons_ne_nil c key)

theorem splitOn_eq (sep : Char) (cs : List Char) : splitOn sep cs = cs.splitOn sep := by
  induction cs with
  | nil => rfl
  | cons c rest ih =>
    have hcons : (c :: rest).splitOn sep =
        if (c == sep) = true then [] :: rest.splitOn sep else (rest.splitOn sep).modifyHead (c :: ·) :=
      List.splitOnP_cons_eq_if_modifyHead c rest
    rw [splitOn, ih, hcons]
    split
    · rfl
    · cases hsplit : rest.splitOn sep with
      | nil => exact absurd hsplit (List.splitOn_ne_nil sep rest)
      | cons first more => rfl

/-- The keys that a path names, one after the other. -/
def Names (path : List Char) (keys : List (List Char)) : Prop :=
  ∃ parts, List.Forall₂ Stands (path.splitOn '.') parts ∧ keys = parts.flatten

theorem names_iff {path : List Char} : Names path keys ↔ steps path = keys := by
  have hparts {segments : List (List Char)} {parts : List (List (List Char))} :
      List.Forall₂ Stands segments parts ↔ segments.map segmentSteps = parts := by
    induction segments generalizing parts with
    | nil => cases parts <;> simp
    | cons segment segments ih => cases parts <;> simp [stands_iff, ih]
  rw [Names, steps, splitOn_eq, List.flatMap]
  constructor
  · rintro ⟨parts, h, rfl⟩
    rw [hparts.1 h]
  · rintro rfl
    exact ⟨_, hparts.2 rfl, rfl⟩

/-- Segments with points between them name the keys that each of them stands for. -/
theorem steps_intercalate {segments : List (List Char)} {parts : List (List (List Char))} (hne : segments ≠ [])
    (hdot : ∀ segment ∈ segments, '.' ∉ segment) (h : List.Forall₂ Stands segments parts) :
    steps (['.'].intercalate segments) = parts.flatten :=
  names_iff.1 ⟨parts, by rwa [List.splitOn_intercalate '.' hdot hne], rfl⟩

/-! ## Lookup -/

theorem lookupText_eq (path : String) (context : Value) : lookupText path context =
    if trimList path.toList = [] then .ok .null
    else (follow context (steps (trimList path.toList))).map (·.getD .null) := by
  unfold lookupText
  simp only [List.isEmpty_iff]
  split
  · rfl
  · cases follow context (steps (trimList path.toList)) <;> rfl

/-- A path is read without the blanks around it, and one of blanks alone names nothing. Any other path names keys. The
value found is the part that they lead to, or null if one of them leads nowhere; one of these is so unless an index that
is no number is asked of a list, which fails. -/
theorem lookup_follows_unless_illegible (path : String) (context : Value) :
    (trimList path.toList = [] ∧ lookup (.str path) context = .ok .null) ∨
    ∃ keys, (∀ other, Names (trimList path.toList) other ↔ other = keys) ∧
      (∀ v, Follows context keys v → lookup (.str path) context = .ok v) ∧
      (Misses context keys → lookup (.str path) context = .ok .null) ∧
      (∀ fault, lookup (.str path) context = .error fault ↔ fault = .badValue ∧ Stumbles context keys) ∧
      ((∃ v, Follows context keys v) ∨ Misses context keys ∨ Stumbles context keys) := by
  have hlookup : lookup (.str path) context = lookupText path context := rfl
  rw [hlookup, lookupText_eq]
  by_cases hempty : trimList path.toList = []
  · exact .inl ⟨hempty, if_pos hempty⟩
  rw [if_neg hempty]
  refine .inr ⟨steps (trimList path.toList), fun other => names_iff.trans eq_comm, ?_, ?_, ?_, ?_⟩
  · intro v hv
    rw [follow_eq_some_iff.2 hv]
    rfl
  · intro h
    rw [follow_eq_none_iff.2 h]
    rfl
  · intro fault
    rw [← follow_eq_error_iff]
    cases follow context (steps (trimList path.toList)) <;> simp [Except.map]
  · rcases hfound : follow context (steps (trimList path.toList)) with fault | _ | v
    · exact .inr (.inr (follow_eq_error_iff.1 hfound).2)
    · exact .inr (.inl (follow_eq_none_iff.1 hfound))
    · exact .inl ⟨v, follow_eq_some_iff.1 hfound⟩

/-- Two dashes before a digit look like an index of a list, and are none. -/
theorem lookup_two_dashes_fails :
    lookup (.str "xs.--1") (.object [("xs", .list [.int 1])]) = .error .badValue := by
  rfl

end Flowline.Path
