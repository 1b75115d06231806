import Flowline.Proofs.Expression.Grammar
import Flowline.Proofs.Number.Spelling

/-! # Cutting texts into lexemes

`Lexes cs ls`: the characters `cs` are cut into the lexemes `ls`, whatever their place in the text is. The
tokens of a text are its lexemes and the end mark (`exists_tokensFrom`, `lexes_of_tokensFrom`). A text can
be cut in two where its second part begins with a separator: `Lexes.append` puts the lexemes of the parts
together, and `Lexes.split` takes them apart where the separator stands outside quotes. -/

namespace Flowline.Expression

open Lexeme Text

/-- The text is cut into the lexemes, and the blanks between them are dropped. -/
inductive Lexes : List Char → List Lexeme → Prop
  | nil : Lexes [] []
  | blank {c rest ls} (hc : isBlank c = true) (h : Lexes rest ls) : Lexes (c :: rest) ls
  | token {c kind body rest ls} (hlex : lexeme? c (body ++ rest) = some (some kind, body.length))
    (h : Lexes rest ls) : Lexes (c :: (body ++ rest)) (⟨kind, String.ofList (c :: body)⟩ :: ls)

variable {c : Char} {cs rest : List Char} {ls : List Lexeme}

/-! ## Tokens -/

theorem countWhile_le (p : Char → Bool) (cs : List Char) : countWhile p cs ≤ cs.length :=
  (List.takeWhile_prefix p).length_le

theorem fractionSize_le (cs : List Char) : fractionSize cs ≤ cs.length := by
  unfold fractionSize
  grind [countWhile_le]

theorem exponentSize_le (cs : List Char) : exponentSize cs ≤ cs.length := by
  unfold exponentSize
  grind [countWhile_le]

theorem numberSize_le (cs : List Char) : numberSize cs ≤ cs.length := by
  have hwhole := countWhile_le isDecimal cs
  have hfraction := fractionSize_le (cs.drop (countWhile isDecimal cs))
  have hexponent := exponentSize_le ((cs.drop (countWhile isDecimal cs)).drop
    (fractionSize (cs.drop (countWhile isDecimal cs))))
  simp only [List.length_drop] at hfraction hexponent
  simp only [numberSize]
  omega

theorem stringSize?_le {quote : Char} {n : Nat} (h : stringSize? quote cs = some n) : n ≤ cs.length := by
  fun_induction stringSize? quote cs generalizing n with
  | case1 | case2 | case5 => cases h
  | case3 c rest _ ih | case6 c rest _ _ _ ih =>
    obtain ⟨m, hm, rfl⟩ := Option.map_eq_some_iff.1 h
    have hle := ih hm
    simp only [List.length_cons]
    omega
  | case4 => 
    cases h
    simp

theorem operatorSize?_le {n : Nat} (h : operatorSize? c cs = some n) : n ≤ cs.length := by
  unfold operatorSize? at h
  split at h <;> simp_all <;> omega

/-- What stands at the front of a text: the kinds that `lexeme?` tells apart. -/
inductive Starts (c : Char) (cs : List Char) : Option TokenKind → Nat → Prop
  | blank (hc : isBlank c = true) : Starts c cs none (countWhile isBlank cs)
  | number (hc : isDecimal c = true) : Starts c cs (some .number) (numberSize cs)
  | string {n} (hc : c = '"' ∨ c = '\'') (hsize : stringSize? c cs = some n) : Starts c cs (some .string) n
  | name (hc : isNameStart c = true) : Starts c cs (some .name) (countWhile isNameChar cs)
  | operator {n} (hsize : operatorSize? c cs = some n) : Starts c cs (some .operator) n
  | mark {kind} (hkind : markKind? c = some kind) : Starts c cs (some kind) 0

theorem starts_of_lexeme? {kind? : Option TokenKind} {n : Nat} (h : lexeme? c cs = some (kind?, n)) :
    Starts c cs kind? n := by
  unfold lexeme? at h
  split at h
  · next hc => cases h; exact .blank hc
  split at h
  · next hc => cases h; exact .number hc
  split at h
  · next hc =>
    obtain ⟨m, hm, heq⟩ := Option.map_eq_some_iff.1 h
    cases heq
    exact .string (by simpa using hc) hm
  split at h
  · next hc => cases h; exact .name hc
  split at h
  · next m hm => cases h; exact .operator hm
  · obtain ⟨kind, hkind, heq⟩ := Option.map_eq_some_iff.1 h
    cases heq
    exact .mark hkind

/-- A token ends within the text. -/
theorem lexeme?_le {kind? : Option TokenKind} {n : Nat} (h : lexeme? c cs = some (kind?, n)) : n ≤ cs.length := by
  cases starts_of_lexeme? h with
  | blank => exact countWhile_le isBlank cs
  | number => exact numberSize_le cs
  | string _ hsize => exact stringSize?_le hsize
  | name => exact countWhile_le isNameChar cs
  | operator hsize => exact operatorSize?_le hsize
  | mark => exact Nat.zero_le _

theorem lexeme?_of_isBlank (hc : isBlank c = true) : lexeme? c cs = some (none, countWhile isBlank cs) := by
  simp [lexeme?, hc]

/-- Only blanks are of no kind. -/
theorem isBlank_of_lexeme? {n : Nat} (h : lexeme? c cs = some (none, n)) : isBlank c = true := by
  cases starts_of_lexeme? h with
  | blank hc => exact hc

theorem not_isBlank_of_lexeme? {kind : TokenKind} {n : Nat} (h : lexeme? c cs = some (some kind, n)) :
    isBlank c = false := by
  refine Bool.eq_false_iff.2 fun hc => ?_
  cases h.symm.trans (lexeme?_of_isBlank hc)

theorem ne_stop_of_lexeme? {kind : TokenKind} {n : Nat} (h : lexeme? c cs = some (some kind, n)) :
    kind ≠ .stop := by
  cases starts_of_lexeme? h with
  | mark hkind =>
    rintro rfl
    unfold markKind? at hkind
    split at hkind <;> cases hkind
  | _ => decide

/-! ## The tokens of a text -/

theorem Lexes.of_dropBlanks (h : Lexes (cs.drop (countWhile isBlank cs)) ls) : Lexes cs ls := by
  induction cs with
  | nil => exact h
  | cons c rest ih =>
    by_cases hc : isBlank c = true
    · refine .blank hc (ih ?_)
      simpa [countWhile, hc] using h
    · simpa [countWhile, hc] using h

theorem Lexes.dropBlanks (h : Lexes cs ls) : Lexes (cs.drop (countWhile isBlank cs)) ls := by
  induction h with
  | nil => exact .nil
  | blank hc _ ih => simpa [countWhile, hc] using ih
  | token hlex h =>
    rw [countWhile, List.takeWhile_cons_of_neg (by simp [not_isBlank_of_lexeme? hlex])]
    exact .token hlex h

theorem lexes_of_tokensFrom {position : Nat} {ts : List Token} (h : tokensFrom position cs = .ok ts) :
    ∃ ls, Lexes cs ls ∧ ts.map Token.lexeme = ls ++ [stop] := by
  fun_induction tokensFrom position cs generalizing ts with
  | case1 => cases h; exact ⟨[], .nil, rfl⟩
  | case2 => cases h
  | case3 position c rest kind? size hlex ih =>
    obtain ⟨ts', hts', heq⟩ := bind_eq_ok.1 h
    obtain ⟨ls, hls, hmap⟩ := ih hts'
    cases kind? with
    | none =>
      cases heq
      have hc := isBlank_of_lexeme? hlex
      obtain ⟨_, rfl⟩ := Prod.mk.inj (Option.some.inj (hlex.symm.trans (lexeme?_of_isBlank hc)))
      exact ⟨ls, .blank hc (.of_dropBlanks hls), hmap⟩
    | some kind =>
      cases heq
      have hsize : (rest.take size).length = size := List.length_take_of_le (lexeme?_le hlex)
      have htoken : Lexes (c :: (rest.take size ++ rest.drop size))
          (⟨kind, String.ofList (c :: rest.take size)⟩ :: ls) :=
        .token (by rwa [List.take_append_drop, hsize]) hls
      rw [List.take_append_drop] at htoken
      exact ⟨_, htoken, by simp [hmap, Token.lexeme]⟩

theorem exists_tokensFrom (h : Lexes cs ls) (position : Nat) :
    ∃ ts, tokensFrom position cs = .ok ts ∧ ts.map Token.lexeme = ls ++ [stop] := by
  induction hn : cs.length using Nat.strongRecOn generalizing cs ls position with
  | ind n ih =>
    subst hn
    cases h with
    | nil => exact ⟨[⟨.stop, "", position⟩], by rw [tokensFrom.eq_def], rfl⟩
    | @blank c rest _ hc h =>
      obtain ⟨ts, hts, hmap⟩ := ih (rest.drop (countWhile isBlank rest)).length
        (by simp only [List.length_drop, List.length_cons]; omega) h.dropBlanks
        (position + countWhile isBlank rest + 1) rfl
      refine ⟨ts, ?_, hmap⟩
      rw [tokensFrom.eq_def]
      simp only [lexeme?_of_isBlank hc]
      exact bind_eq_ok.2 ⟨ts, hts, rfl⟩
    | @token c kind body rest ls hlex h =>
      obtain ⟨ts, hts, hmap⟩ := ih rest.length (by simp only [List.length_append, List.length_cons]; omega) h
        (position + body.length + 1) rfl
      refine ⟨⟨kind, String.ofList (c :: body), position⟩ :: ts, ?_, by simp [hmap, Token.lexeme]⟩
      rw [tokensFrom.eq_def]
      simp only [hlex]
      refine bind_eq_ok.2 ⟨ts, ?_, ?_⟩
      · rwa [List.drop_left]
      · rw [List.take_left]
        rfl

theorem Lexes.ne_stop (h : Lexes cs ls) : ∀ l ∈ ls, l.kind ≠ .stop := by
  induction h with
  | nil => exact nofun
  | blank _ _ ih => exact ih
  | token hlex _ ih => exact List.forall_mem_cons.2 ⟨ne_stop_of_lexeme? hlex, ih⟩

theorem Lexes.unique {ms : List Lexeme} (hl : Lexes cs ls) (hm : Lexes cs ms) : ls = ms := by
  obtain ⟨ts, hts, hmap⟩ := exists_tokensFrom hl 0
  obtain ⟨us, hus, hmap'⟩ := exists_tokensFrom hm 0
  obtain rfl := Except.ok.inj (hts.symm.trans hus)
  exact List.append_cancel_right (hmap.symm.trans hmap')

theorem Lexes.of_blank (h : Lexes (c :: rest) ls) (hc : isBlank c = true) : Lexes rest ls := by
  cases h with
  | blank _ h => exact h
  | token hlex => cases hc.symm.trans (not_isBlank_of_lexeme? hlex)

/-- The token that stands at the front is the first lexeme. -/
theorem Lexes.of_token {kind : TokenKind} {body : List Char} (h : Lexes (c :: (body ++ rest)) ls)
    (hlex : lexeme? c (body ++ rest) = some (some kind, body.length)) :
    ∃ ms, ls = ⟨kind, String.ofList (c :: body)⟩ :: ms ∧ Lexes rest ms := by
  generalize htext : c :: (body ++ rest) = text at h
  cases h with
  | nil => cases htext
  | blank hc =>
    obtain ⟨rfl, rfl⟩ := List.cons.inj htext
    cases hc.symm.trans (not_isBlank_of_lexeme? hlex)
  | token hlex' h =>
    obtain ⟨rfl, hsplit⟩ := List.cons.inj htext
    rw [hsplit, hlex'] at hlex
    obtain ⟨hkind, hlength⟩ := Prod.mk.inj (Option.some.inj hlex)
    obtain rfl := Option.some.inj hkind
    obtain ⟨rfl, rfl⟩ := List.append_inj hsplit hlength.symm
    exact ⟨_, rfl, h⟩

theorem Lexes.of_mark {kind : TokenKind} (h : Lexes (c :: rest) ls) (hlex : lexeme? c rest = some (some kind, 0)) :
    ∃ ms, ls = ⟨kind, String.ofList [c]⟩ :: ms ∧ Lexes rest ms := by
  have htext : Lexes (c :: ([] ++ rest)) ls := h
  exact htext.of_token hlex

/-- A text that is one lexeme. -/
theorem Lexes.single {kind : TokenKind} (h : lexeme? c cs = some (some kind, cs.length)) :
    Lexes (c :: cs) [⟨kind, String.ofList (c :: cs)⟩] := by
  have htoken : lexeme? c (cs ++ []) = some (some kind, cs.length) := by rwa [List.append_nil]
  have hlexes := Lexes.token htoken .nil
  rwa [List.append_nil] at hlexes

/-! ## Separators -/

/-- Characters that end every token but a string: blanks, quotes, commas, colons and closing brackets. -/
def isSeparator (c : Char) : Bool :=
  isBlank c || c == '"' || c == '\'' || c == ',' || c == ':' || c == ')' || c == ']' || c == '\x7d'

/-- The text is empty or begins with a separator. -/
def Separated (cs : List Char) : Prop := ∀ c ∈ cs.head?, isSeparator c = true

/-- The code points of separators. -/
def separatorCodes : List Nat := [34, 39, 41, 44, 58, 93, 125] ++ blankCodes

theorem toNat_mem_separatorCodes {c : Char} (h : isSeparator c = true) : c.toNat ∈ separatorCodes := by
  simp only [isSeparator, Bool.or_eq_true, beq_iff_eq] at h
  rcases h with ((((((h | rfl) | rfl) | rfl) | rfl) | rfl) | rfl) | rfl
  · exact List.mem_append_right _ (toNat_mem_blankCodes h)
  all_goals decide

theorem isSeparator_cases {c : Char} (h : isSeparator c = true) :
    isDecimal c = false ∧ isNameChar c = false ∧ c ∉ ['.', 'e', 'E', '+', '-', '=', '&', '|'] := by
  have hall : ∀ n ∈ separatorCodes, isDecimal (Char.ofNat n) = false ∧ isNameChar (Char.ofNat n) = false ∧
      Char.ofNat n ∉ ['.', 'e', 'E', '+', '-', '=', '&', '|'] := by decide +kernel
  simpa using hall c.toNat (toNat_mem_separatorCodes h)

variable {a Z : List Char}

theorem Separated.countWhile_append {p : Char → Bool} (hZ : Separated Z)
    (hp : ∀ c, isSeparator c = true → p c = false) : countWhile p (a ++ Z) = countWhile p a := by
  induction a with
  | nil =>
    cases Z with
    | nil => rfl
    | cons c Z => simp [countWhile, hp c (hZ c rfl)]
  | cons c a ih =>
    by_cases hc : p c = true
    · simpa [countWhile, hc] using ih
    · simp [countWhile, hc]

theorem Separated.countWhile_isDecimal (hZ : Separated Z) :
    countWhile isDecimal (a ++ Z) = countWhile isDecimal a :=
  hZ.countWhile_append fun _ hc => (isSeparator_cases hc).1

theorem Separated.head_not_mem (hZ : Separated (c :: Z)) : c ∉ ['.', 'e', 'E', '+', '-', '=', '&', '|'] :=
  (isSeparator_cases (hZ c rfl)).2.2

theorem Separated.fractionSize_append (hZ : Separated Z) : fractionSize (a ++ Z) = fractionSize a := by
  cases a with
  | nil =>
    cases Z with
    | nil => rfl
    | cons c Z =>
      have hc := hZ.head_not_mem
      simp only [List.nil_append]
      unfold fractionSize
      grind
  | cons c a =>
    have hdigits := hZ.countWhile_isDecimal (a := a)
    simp only [List.cons_append]
    unfold fractionSize
    grind

theorem Separated.exponentSize_append (hZ : Separated Z) : exponentSize (a ++ Z) = exponentSize a := by
  have hdigits := fun b => hZ.countWhile_isDecimal (a := b)
  match a with
  | [] =>
    cases Z with
    | nil => rfl
    | cons c Z =>
      have hc := hZ.head_not_mem
      simp only [List.nil_append]
      unfold exponentSize
      grind
  | [e] =>
    cases Z with
    | nil => rfl
    | cons c Z =>
      have hc := hZ.head_not_mem
      have hnone := hdigits []
      simp only [List.nil_append, List.cons_append] at hnone ⊢
      unfold exponentSize
      grind
  | e :: s :: b =>
    have hb := hdigits b
    have hsb := hdigits (s :: b)
    simp only [List.cons_append] at hsb ⊢
    unfold exponentSize
    grind

theorem Separated.numberSize_append (hZ : Separated Z) : numberSize (a ++ Z) = numberSize a := by
  simp only [numberSize, hZ.countWhile_isDecimal]
  rw [List.drop_append_of_le_length (countWhile_le isDecimal a), hZ.fractionSize_append,
    List.drop_append_of_le_length (fractionSize_le _), hZ.exponentSize_append]

/-- No operator has more than three characters. -/
theorem operatorSize?_of_two (c d e : Char) (cs ds : List Char) :
    operatorSize? c (d :: e :: cs) = operatorSize? c (d :: e :: ds) := by
  generalize hrest : d :: e :: cs = rest
  fun_cases operatorSize? c rest <;> cases hrest
  case case9 | case10 =>
    simp_all only [List.cons.injEq, imp_false]
    unfold operatorSize?
    split <;> simp_all
  all_goals simp_all [operatorSize?]

theorem Separated.operatorSize?_append (hZ : Separated Z) :
    operatorSize? c (a ++ Z) = operatorSize? c a := by
  match a with
  | [] =>
    cases Z with
    | nil => rfl
    | cons c Z =>
      have hc := hZ.head_not_mem
      simp only [List.nil_append]
      unfold operatorSize?
      grind
  | [e] =>
    cases Z with
    | nil => rfl
    | cons c Z =>
      have hc := hZ.head_not_mem
      simp only [List.nil_append, List.cons_append]
      unfold operatorSize?
      grind
  | d :: e :: b => exact operatorSize?_of_two c d e (b ++ Z) b

/-- A token that is no string ends before a separator. -/
theorem Separated.lexeme?_append (hZ : Separated Z) (hblank : isBlank c = false) (hdouble : c ≠ '"')
    (hsingle : c ≠ '\'') : lexeme? c (a ++ Z) = lexeme? c a := by
  have hname : countWhile isNameChar (a ++ Z) = countWhile isNameChar a :=
    hZ.countWhile_append fun _ hc => (isSeparator_cases hc).2.1
  simp [lexeme?, hblank, hdouble, hsingle, hZ.numberSize_append, hname, hZ.operatorSize?_append]

/-! ## Quotes -/

/-- Whether a text has come to its end within a string, and which quote ends it. -/
inductive Quoting
  | outside
  | inside (quote : Char)
  | escaped (quote : Char)
deriving DecidableEq

def isQuote (c : Char) : Bool := c == '"' || c == '\''

def Quoting.next : Quoting → Char → Quoting
  | .outside, c => if isQuote c then .inside c else .outside
  | .inside quote, c => if c == quote then .outside else if c == '\\' then .escaped quote else .inside quote
  | .escaped quote, _ => .inside quote

/-- Where a text leaves the quotes that it comes to. -/
def quoting (q : Quoting) (cs : List Char) : Quoting := cs.foldl Quoting.next q

theorem quoting_cons (q : Quoting) (c : Char) (cs : List Char) :
    quoting q (c :: cs) = quoting (q.next c) cs := rfl

theorem quoting_append (q : Quoting) (a b : List Char) : quoting q (a ++ b) = quoting (quoting q a) b :=
  List.foldl_append

variable {quote : Char} {n : Nat}

theorem stringSize?_cons (hc : c ≠ '\\') :
    stringSize? quote (c :: cs) = if c = quote then some 1 else (stringSize? quote cs).map (· + 1) := by
  simp [stringSize?, hc]

/-- A string ends with its closing quote, whatever follows it. -/
theorem stringSize?_take (hslash : quote ≠ '\\') (h : stringSize? quote cs = some n) (rest : List Char) :
    stringSize? quote (cs.take n ++ rest) = some n := by
  fun_induction stringSize? quote cs generalizing n with
  | case1 | case2 | case5 => cases h
  | case3 c cs hline ih =>
    obtain ⟨m, hm, rfl⟩ := Option.map_eq_some_iff.1 h
    simp [stringSize?, hline, ih hm]
  | case4 c cs _ hquote =>
    cases h
    obtain rfl := beq_iff_eq.1 hquote
    simp [stringSize?_cons hslash]
  | case6 c cs _ hquote hc ih =>
    obtain ⟨m, hm, rfl⟩ := Option.map_eq_some_iff.1 h
    have hc : c ≠ '\\' := by simpa using hc
    have hquote : c ≠ quote := by simpa using hquote
    simp [stringSize?_cons hc, hquote, ih hm]

/-- The quotes are closed at the end of a string and not before. -/
theorem quoting_take_eq_outside_iff (hslash : quote ≠ '\\') (h : stringSize? quote cs = some n) {m : Nat}
    (hm : m ≤ n) : quoting (.inside quote) (cs.take m) = .outside ↔ m = n := by
  fun_induction stringSize? quote cs generalizing n m with
  | case1 | case2 | case5 => cases h
  | case3 c cs _ ih =>
    obtain ⟨n, hn, rfl⟩ := Option.map_eq_some_iff.1 h
    match m with
    | 0 => simp [quoting]
    | 1 => simp [quoting, Quoting.next, hslash.symm]
    | m + 2 =>
      have hrest := ih hn (m := m) (by omega)
      simpa [quoting, Quoting.next, hslash.symm] using hrest
  | case4 c cs _ hquote =>
    cases h
    obtain rfl := beq_iff_eq.1 hquote
    match m with
    | 0 => simp [quoting]
    | 1 => simp [quoting, Quoting.next]
  | case6 c cs _ hquote hc ih =>
    obtain ⟨n, hn, rfl⟩ := Option.map_eq_some_iff.1 h
    have hc : c ≠ '\\' := by simpa using hc
    have hquote : c ≠ quote := by simpa using hquote
    match m with
    | 0 => simp [quoting]
    | m + 1 =>
      have hrest := ih hn (m := m) (by omega)
      simpa [quoting, Quoting.next, hc, hquote] using hrest

/-! ## Texts in two parts -/

theorem ne_slash_of_isQuote (h : isQuote c = true) : c ≠ '\\' := by
  rintro rfl
  cases h

theorem lexeme?_of_isQuote (hc : isQuote c = true) :
    lexeme? c cs = (stringSize? c cs).map fun n => (some .string, n) := by
  have hother : isBlank c = false ∧ isDecimal c = false := by
    rcases (by simpa [isQuote] using hc : c = '"' ∨ c = '\'') with rfl | rfl <;> decide
  have hquote : (c == '"' || c == '\'') = true := hc
  simp only [lexeme?, hother, hquote, Bool.false_eq_true, if_false, if_true]

theorem Separated.lexeme?_append_of_not_isQuote (hZ : Separated Z) (hblank : isBlank c = false)
    (hc : ¬isQuote c = true) : lexeme? c (a ++ Z) = lexeme? c a := by
  have hquote : c ≠ '"' ∧ c ≠ '\'' := by simpa [isQuote] using hc
  exact hZ.lexeme?_append hblank hquote.1 hquote.2

/-- A token stays what it is where a separator follows it. -/
theorem lexeme?_append {kind : TokenKind} {body : List Char} (hZ : Separated Z)
    (h : lexeme? c (body ++ rest) = some (some kind, body.length)) :
    lexeme? c (body ++ (rest ++ Z)) = some (some kind, body.length) := by
  by_cases hc : isQuote c = true
  · rw [lexeme?_of_isQuote hc] at h ⊢
    obtain ⟨n, hn, heq⟩ := Option.map_eq_some_iff.1 h
    cases heq
    have hstring := stringSize?_take (ne_slash_of_isQuote hc) hn (rest ++ Z)
    rw [List.take_left] at hstring
    rw [hstring]
    rfl
  · rwa [← List.append_assoc, hZ.lexeme?_append_of_not_isQuote (not_isBlank_of_lexeme? h) hc]

/-- Texts are put together before a separator. -/
theorem Lexes.append {M : List Lexeme} (h : Lexes a ls) (hZ : Separated Z) (hM : Lexes Z M) :
    Lexes (a ++ Z) (ls ++ M) := by
  induction h with
  | nil => exact hM
  | blank hc _ ih => exact .blank hc ih
  | token hlex _ ih =>
    simp only [List.cons_append, List.append_assoc]
    exact .token (lexeme?_append hZ hlex) ih

/-- A token that is no string holds no separator. -/
theorem not_isSeparator_of_mem {kind : TokenKind} {body : List Char} (hc : ¬isQuote c = true)
    (h : lexeme? c (body ++ rest) = some (some kind, body.length)) {d : Char} (hd : d ∈ body) :
    ¬isSeparator d = true := by
  intro hseparator
  obtain ⟨x, y, rfl⟩ := List.append_of_mem hd
  have hZ : Separated (d :: (y ++ rest)) := by
    rintro _ ⟨⟩
    exact hseparator
  have hblank := not_isBlank_of_lexeme? h
  rw [List.append_assoc, List.cons_append, hZ.lexeme?_append_of_not_isQuote hblank hc] at h
  have hle := lexeme?_le h
  simp only [List.length_append, List.length_cons] at hle
  omega

theorem isSeparator_of_isQuote (h : isQuote c = true) : isSeparator c = true := by
  rcases (by simpa [isQuote] using h : c = '"' ∨ c = '\'') with rfl | rfl <;> decide

theorem quoting_outside (h : ∀ c ∈ cs, ¬isQuote c = true) : quoting .outside cs = .outside := by
  induction cs with
  | nil => rfl
  | cons c cs ih =>
    obtain ⟨hc, hcs⟩ := List.forall_mem_cons.1 h
    rw [quoting_cons, Quoting.next, if_neg hc]
    exact ih hcs

/-- After a token the quotes are closed. -/
theorem quoting_of_lexeme? {kind : TokenKind} {body : List Char}
    (h : lexeme? c (body ++ rest) = some (some kind, body.length)) :
    quoting .outside (c :: body) = .outside := by
  by_cases hc : isQuote c = true
  · rw [lexeme?_of_isQuote hc] at h
    obtain ⟨n, hn, heq⟩ := Option.map_eq_some_iff.1 h
    cases heq
    have hclosed := (quoting_take_eq_outside_iff (ne_slash_of_isQuote hc) hn (Nat.le_refl _)).2 rfl
    rw [List.take_left] at hclosed
    rwa [quoting_cons, Quoting.next, if_pos hc]
  · refine quoting_outside (List.forall_mem_cons.2 ⟨hc, fun d hd hquote => ?_⟩)
    exact not_isSeparator_of_mem hc h hd (isSeparator_of_isQuote hquote)

/-- A token before a separator outside quotes ends before it too. -/
theorem length_le_of_lexeme? {kind : TokenKind} {body : List Char} (hZ : Separated Z)
    (hsplit : body ++ rest = a ++ Z) (hlex : lexeme? c (body ++ rest) = some (some kind, body.length))
    (houtside : quoting .outside (c :: a) = .outside) : body.length ≤ a.length := by
  by_cases hc : isQuote c = true
  · rw [lexeme?_of_isQuote hc] at hlex
    obtain ⟨n, hn, heq⟩ := Option.map_eq_some_iff.1 hlex
    cases heq
    refine Nat.le_of_not_lt fun hlt => Nat.ne_of_lt hlt ?_
    refine (quoting_take_eq_outside_iff (ne_slash_of_isQuote hc) hn (Nat.le_of_lt hlt)).1 ?_
    have htake : (a ++ Z).take a.length = a := List.take_left
    rwa [quoting_cons, Quoting.next, if_pos hc, ← htake, ← hsplit] at houtside
  · rw [hsplit, hZ.lexeme?_append_of_not_isQuote (not_isBlank_of_lexeme? hlex) hc] at hlex
    exact lexeme?_le hlex

/-- A token stays what it is where a separator no longer follows it. -/
theorem lexeme?_of_append {kind : TokenKind} {body : List Char} (hZ : Separated Z)
    (h : lexeme? c (body ++ (rest ++ Z)) = some (some kind, body.length)) :
    lexeme? c (body ++ rest) = some (some kind, body.length) := by
  by_cases hc : isQuote c = true
  · rw [lexeme?_of_isQuote hc] at h ⊢
    obtain ⟨n, hn, heq⟩ := Option.map_eq_some_iff.1 h
    cases heq
    have hstring := stringSize?_take (ne_slash_of_isQuote hc) hn rest
    rw [List.take_left] at hstring
    rw [hstring]
    rfl
  · rwa [← List.append_assoc, hZ.lexeme?_append_of_not_isQuote (not_isBlank_of_lexeme? h) hc] at h

/-- A text is taken apart before a separator outside quotes. -/
theorem Lexes.split (h : Lexes (a ++ Z) ls) (hZ : Separated Z) (houtside : quoting .outside a = .outside) :
    ∃ ks ms, ls = ks ++ ms ∧ Lexes a ks ∧ Lexes Z ms := by
  induction hn : a.length using Nat.strongRecOn generalizing a ls with
  | ind n ih =>
    subst hn
    cases a with
    | nil => exact ⟨[], ls, rfl, .nil, h⟩
    | cons c a =>
      generalize htext : c :: a ++ Z = text at h
      cases h with
      | nil => cases htext
      | blank hc h =>
        obtain ⟨rfl, rfl⟩ := List.cons.inj htext
        have hquote : ¬isQuote c = true := fun hquote => by
          rcases (by simpa [isQuote] using hquote : c = '"' ∨ c = '\'') with rfl | rfl <;> cases hc
        rw [quoting_cons, Quoting.next, if_neg hquote] at houtside
        obtain ⟨ks, ms, rfl, hks, hms⟩ := ih a.length (Nat.lt_succ_self _) h houtside rfl
        exact ⟨ks, ms, rfl, .blank hc hks, hms⟩
      | @token _ kind body rest ls hlex h =>
        obtain ⟨rfl, hsplit⟩ := List.cons.inj htext
        have hle := length_le_of_lexeme? hZ hsplit.symm hlex houtside
        obtain ⟨b, rfl⟩ := List.prefix_of_prefix_length_le ⟨rest, rfl⟩ ⟨Z, hsplit⟩ hle
        obtain rfl : rest = b ++ Z := by simpa using hsplit.symm
        rw [← List.cons_append, quoting_append, quoting_of_lexeme? hlex] at houtside
        obtain ⟨ks, ms, rfl, hks, hms⟩ := ih b.length
          (by simp only [List.length_cons, List.length_append]; omega) h houtside rfl
        exact ⟨_, ms, rfl, .token (lexeme?_of_append hZ hlex) hks, hms⟩

end Flowline.Expression
