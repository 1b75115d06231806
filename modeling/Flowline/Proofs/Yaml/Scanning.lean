import Flowline.Proofs.Yaml.Scalars
import Flowline.Yaml.Tokens

/-! # The tokens of JSON text

Inside brackets a lexer is told by few things: how many brackets are open, the tokens so far and what is left. One
turn of the lexer leads from such a view to the next (`Scans`), and turns put together lead over the text of a value
to its tokens (`scans_value`). -/

namespace Flowline.Yaml

/-! ## Turns of a lexer -/

def isBlankOrFeed (c : Char) : Bool := c == ' ' || c == '\n'

/-- A character that begins a token or ends a text, and is not passed over before one. -/
def isTokenStart (c : Char) : Bool := c != ' ' && c != '#' && !isBreak c && c.toNat != 0xFEFF

namespace Lexer

variable {l : Lexer} {x : Char} {rest layout : List Char}

/-- What stands before a token is passed over. -/
theorem passSpace_layout (hlayout : IsLayout layout) (hstart : isTokenStart (rest.headD endMark) = true)
    (h : l.cursor.rest = layout ++ rest) {fuel : Nat} (hfuel : layout.length < fuel) :
    ∃ c a, l.passSpace fuel = { l with cursor := c, allowKey := a } ∧ c.rest = rest ∧ (l.allowKey = true → a = true) := by
  induction fuel generalizing l layout with
  | zero => omega
  | succ fuel ih =>
    obtain ⟨blanks, further, rfl, hblanks, hhead⟩ := exists_blanks layout
    simp only [isTokenStart, Bool.and_eq_true, bne_iff_ne, Bool.not_eq_true'] at hstart
    obtain ⟨⟨⟨hspace, hmark⟩, hbreak⟩, -⟩ := hstart
    rw [List.append_assoc] at h
    have hskip : l.cursor.skipWhile (· == ' ') = l.cursor.skip blanks.length := by
      rw [Cursor.skipWhile, Cursor.takeWhile_eq h (fun y hy => by simp [hblanks y hy])]
      cases further with
      | nil => cases rest <;> simp_all
      | cons y further => simpa using hhead
    have hrest : (l.cursor.skip blanks.length).rest = further ++ rest := by rw [Cursor.skip_rest, h, List.drop_left]
    cases further with
    | nil =>
      have hfirst : (l.cursor.skip blanks.length).head = rest.headD endMark := by rw [Cursor.head, hrest]; rfl
      refine ⟨l.cursor.skip blanks.length, l.allowKey, ?_, hrest, id⟩
      rw [passSpace, hskip, if_neg (by simpa [hfirst] using hmark), Cursor.lineBreak?_of_head (by rw [hfirst, hbreak])]
    | cons y further =>
      obtain ⟨hy, hlines⟩ := List.forall_mem_cons.1 fun z hz => hlayout z (List.mem_append_right _ hz)
      obtain rfl | rfl := hy
      · exact absurd rfl hhead
      · have hfeed : (l.cursor.skip blanks.length).rest = '\n' :: (further ++ rest) := hrest
        have hnext : (l.cursor.skip blanks.length).next.rest = further ++ rest := by rw [Cursor.next_rest, hfeed]; rfl
        have hless : further.length < fuel := by
          rw [List.length_append, List.length_cons] at hfuel
          omega
        obtain ⟨c, a, hread, hc, ha⟩ := ih (l :=
          { l with cursor := (l.cursor.skip blanks.length).next, allowKey := l.allowKey || l.flow = 0 }) hlines hnext hless
        refine ⟨c, a, ?_, hc, fun hallow => ha (by simp [hallow])⟩
        have hfirst : (l.cursor.skip blanks.length).head = '\n' := by rw [Cursor.head, hfeed]; rfl
        rw [passSpace, hskip, if_neg (by simp [hfirst]), Cursor.lineBreak?_feed hfeed]
        exact hread

/-- A key that may have begun is still in one line and not too long. -/
def isFresh (l : Lexer) (k : PendingKey) : Bool := !(k.line != l.cursor.line || l.cursor.index - k.index > keyLimit)

/-- The lexer without the keys that span lines or are too long. -/
def fresh (l : Lexer) : Lexer := { l with pending := l.pending.filter fun p => l.isFresh p.2 }

/-- Nothing that may be a key has to be one. -/
def Optional (l : Lexer) : Prop := ∀ p ∈ l.pending, p.2.required = false

theorem dropStale_eq (h : l.Optional) : l.dropStale = .ok l.fresh := by
  rw [dropStale, if_neg]
  · rfl
  · rw [List.any_eq_true]
    rintro ⟨⟨depth, k⟩, hk, hrequired⟩
    have hoptional : k.required = false := h _ hk
    simp [hoptional] at hrequired

theorem dropPending_eq (h : l.Optional) :
    l.dropPending = .ok { l with pending := l.pending.filter fun (depth, _) => depth != l.flow } := by
  rw [dropPending, if_neg]
  rw [List.any_eq_true]
  rintro ⟨⟨depth, k⟩, hk, hrequired⟩
  have hoptional : k.required = false := h _ hk
  simp [hoptional] at hrequired

theorem unwind_eq (h : l.indent = -1) (column : Nat) : l.unwind column = l := by
  rw [unwind]
  split
  · rw [unwindTo, if_neg (by omega)]
  · rfl

/-- What of a lexer matters inside brackets: how many of them are open, the tokens read, what is left, and whether a
key is known to be allowed. -/
structure View where
  depth : Nat
  tokens : List Token
  rest : List Char
  allowsKey : Bool

/-- A lexer without blocks is seen as a view of it; blanks before the next token make no difference. -/
structure Shows (l : Lexer) (s : View) : Prop where
  indent : l.indent = -1
  indents : l.indents = []
  optional : l.Optional
  flow : l.flow = s.depth
  tokens : l.tokens = s.tokens
  rest : l.cursor.rest.dropWhile isBlankOrFeed = s.rest.dropWhile isBlankOrFeed
  allowsKey : s.allowsKey = true → l.allowKey = true

variable {s s' s'' : View}

theorem dropWhile_of_isTokenStart (h : isTokenStart (rest.headD endMark) = true) : rest.dropWhile isBlankOrFeed = rest := by
  cases rest with
  | nil => rfl
  | cons x rest =>
    simp only [isTokenStart, List.headD_cons, Bool.and_eq_true, bne_iff_ne, Bool.not_eq_true'] at h
    obtain ⟨⟨⟨hspace, -⟩, hbreak⟩, -⟩ := h
    have hfeed : x ≠ '\n' := by
      rintro rfl
      cases hbreak
    simp [isBlankOrFeed, hspace, hfeed]

theorem Shows.exists_layout (h : l.Shows s) (hstart : isTokenStart (s.rest.headD endMark) = true) :
    ∃ layout, IsLayout layout ∧ l.cursor.rest = layout ++ s.rest := by
  refine ⟨l.cursor.rest.takeWhile isBlankOrFeed, fun x hx => ?_, ?_⟩
  · simpa [isBlankOrFeed] using List.all_eq_true.1 List.all_takeWhile x hx
  · rw [← dropWhile_of_isTokenStart hstart, ← h.rest, List.takeWhile_append_dropWhile]

/-- The mark of the byte order does not stand before a token. -/
theorem Shows.head_ne (h : l.Shows s) (hstart : isTokenStart (s.rest.headD endMark) = true) : l.cursor.head.toNat ≠ 0xFEFF := by
  obtain ⟨layout, hlayout, hrest⟩ := h.exists_layout hstart
  rw [Cursor.head, hrest]
  cases layout with
  | nil =>
    simp only [isTokenStart, Bool.and_eq_true, bne_iff_ne] at hstart
    exact hstart.2
  | cons x layout =>
    rw [List.cons_append, List.headD_cons]
    obtain rfl | rfl := hlayout x (by simp) <;> decide

theorem Shows.toNextToken (h : l.Shows s) (hstart : isTokenStart (s.rest.headD endMark) = true) :
    l.toNextToken.Shows s ∧ l.toNextToken.cursor.rest = s.rest := by
  obtain ⟨layout, hlayout, hrest⟩ := h.exists_layout hstart
  have hless : layout.length < l.cursor.rest.length + 1 := by
    rw [hrest, List.length_append]
    omega
  obtain ⟨c, a, hpass, hc, ha⟩ := passSpace_layout (l := l) hlayout hstart hrest hless
  have hnext : l.toNextToken = { l with cursor := c, allowKey := a } := by
    rw [Lexer.toNextToken, if_neg fun hmark => h.head_ne hstart hmark.2]
    exact hpass
  rw [hnext]
  exact ⟨⟨h.indent, h.indents, h.optional, h.flow, h.tokens, congrArg _ hc, fun hallow => ha (h.allowsKey hallow)⟩, hc⟩

theorem Shows.fresh (h : l.Shows s) : l.fresh.Shows s :=
  ⟨h.indent, h.indents, fun p hp => h.optional p (List.mem_filter.1 hp).1, h.flow, h.tokens, h.rest, h.allowsKey⟩

/-- One turn: what is passed over, then the next token. -/
theorem Shows.run_succ (h : l.Shows s) (hrest : s.rest = x :: rest) (hstart : isTokenStart x = true) (fuel : Nat) :
    l.run (fuel + 1) = l.toNextToken.fresh.readToken.bind fun l' => l'.run fuel := by
  obtain ⟨hshows, hcursor⟩ := h.toNextToken (by rw [hrest]; exact hstart)
  have hunwind := unwind_eq hshows.fresh.indent l.toNextToken.fresh.cursor.column
  rw [run, dropStale_eq hshows.optional]
  simp only [bind, Except.bind, hunwind]
  have hsame : l.toNextToken.fresh.cursor.rest = x :: rest := by rw [← hrest, ← hcursor]; rfl
  rw [hsame]
  rfl

/-! ## Steps between views -/

/-- From every lexer that is seen as one view, as many turns as characters are enough to the other view. -/
def Scans (s s' : View) : Prop :=
  ∀ l : Lexer, l.Shows s → ∃ (l' : Lexer) (n : Nat), l'.Shows s' ∧ n + s'.rest.length ≤ s.rest.length ∧
    ∀ fuel, l.run (fuel + n) = l'.run fuel

theorem Scans.refl (s : View) : Scans s s := fun l h => ⟨l, 0, h, by omega, fun _ => rfl⟩

theorem Scans.trans (h : Scans s s') (h' : Scans s' s'') : Scans s s'' := by
  intro l hl
  obtain ⟨l', m, hl', hm, hrun⟩ := h l hl
  obtain ⟨l'', n, hl'', hn, hrun'⟩ := h' l' hl'
  exact ⟨l'', n + m, hl'', by omega, fun fuel => by rw [← Nat.add_assoc, hrun, hrun']⟩

/-- A turn that reads one token. -/
theorem scans_of_turn (hrest : s.rest = x :: rest) (hstart : isTokenStart x = true) (hsize : s'.rest.length < s.rest.length)
    (hread : ∀ l : Lexer, l.Shows s → l.cursor.rest = s.rest → ∃ l', l.readToken = .ok l' ∧ l'.Shows s') : Scans s s' := by
  intro l h
  obtain ⟨hshows, hcursor⟩ := h.toNextToken (by rw [hrest]; exact hstart)
  obtain ⟨l', htoken, hl'⟩ := hread l.toNextToken.fresh hshows.fresh hcursor
  refine ⟨l', 1, hl', by omega, fun fuel => ?_⟩
  rw [h.run_succ hrest hstart, htoken]
  rfl

/-- From every lexer that is seen as a view, the text is malformed after as many turns as characters. -/
def Halts (s : View) : Prop := ∀ l : Lexer, l.Shows s → ∀ fuel, s.rest.length < fuel → l.run fuel = .error .malformed

theorem Scans.halts (h : Scans s s') (h' : Halts s') : Halts s := by
  intro l hl fuel hfuel
  obtain ⟨l', n, hl', hn, hrun⟩ := h l hl
  obtain ⟨m, rfl⟩ : ∃ m, fuel = m + n := ⟨fuel - n, by omega⟩
  rw [hrun]
  exact h' l' hl' m (by omega)

/-- A turn in which no token can be read. -/
theorem halts_of_turn (hrest : s.rest = x :: rest) (hstart : isTokenStart x = true)
    (hread : ∀ l : Lexer, l.Shows s → l.cursor.rest = s.rest → l.readToken = .error .malformed) : Halts s := by
  intro l h fuel hfuel
  obtain ⟨fuel, rfl⟩ := Nat.exists_eq_add_one_of_ne_zero (Nat.ne_zero_of_lt hfuel)
  obtain ⟨hshows, hcursor⟩ := h.toNextToken (by rw [hrest]; exact hstart)
  rw [h.run_succ hrest hstart, hread l.toNextToken.fresh hshows.fresh hcursor]
  rfl

theorem Shows.withPending (h : l.Shows s) {pending : List (Nat × PendingKey)} (hpending : ∀ p ∈ pending, p.2.required = false) :
    { l with pending := pending }.Shows s :=
  ⟨h.indent, h.indents, hpending, h.flow, h.tokens, h.rest, h.allowsKey⟩

theorem Shows.exists_dropPending (h : l.Shows s) :
    ∃ pending, l.dropPending = .ok { l with pending := pending } ∧ ∀ p ∈ pending, p.2.required = false :=
  ⟨_, dropPending_eq h.optional, fun p hp => h.optional p (List.mem_filter.1 hp).1⟩

/-- What may begin with the next token is noted as a key that need not be one, the only one in its brackets. -/
theorem Shows.exists_notePending (h : l.Shows s) : ∃ pending, l.notePending = .ok { l with pending := pending } ∧
    (∀ p ∈ pending, p.2.required = false) ∧ (l.allowKey = true → ∃ further, pending =
      (l.flow, ⟨l.tokens.length, false, l.cursor.index, l.cursor.line, l.cursor.column⟩) :: further ∧
      ∀ p ∈ further, p.1 ≠ l.flow) := by
  rw [Lexer.notePending]
  split
  · have hpending : ∀ p ∈ l.pending.filter (fun (depth, _) => depth != l.flow), p.2.required = false ∧ p.1 ≠ l.flow :=
      fun p hp => ⟨h.optional p (List.mem_filter.1 hp).1, by simpa using (List.mem_filter.1 hp).2⟩
    have hrequired : (decide (l.flow = 0) && decide (l.indent = l.cursor.column)) = false := by
      rw [h.indent, Bool.and_eq_false_iff]
      exact .inr (decide_eq_false (by omega))
    rw [dropPending_eq h.optional]
    refine ⟨_, rfl, List.forall_mem_cons.2 ⟨hrequired, fun p hp => (hpending p hp).1⟩, fun _ => ?_⟩
    exact ⟨_, by rw [← hrequired], fun p hp => (hpending p hp).2⟩
  · next hallow => exact ⟨l.pending, rfl, h.optional, fun hallow' => absurd hallow' hallow⟩

theorem Shows.moved (h : l.Shows s) (flow : Nat) (allowKey : Bool) :
    { l with flow := flow, allowKey := allowKey }.Shows { s with depth := flow, allowsKey := allowKey } :=
  ⟨h.indent, h.indents, h.optional, rfl, h.tokens, h.rest, id⟩

/-- A token of one character has been read. -/
theorem Shows.pushed (h : l.Shows s) (hcursor : l.cursor.rest = x :: rest) (t : Token) :
    ((l.push t).skip 1).Shows ⟨s.depth, t :: s.tokens, rest, s.allowsKey⟩ :=
  ⟨h.indent, h.indents, h.optional, h.flow, congrArg (t :: ·) h.tokens, by simp [Lexer.skip, push, hcursor], h.allowsKey⟩

/-- A token of several characters has been read. -/
theorem Shows.taken (h : l.Shows s) {c : Cursor} (hc : c.rest.dropWhile isBlankOrFeed = rest.dropWhile isBlankOrFeed)
    (t : Token) (allowKey : Bool) :
    { l with cursor := c, allowKey := allowKey, tokens := t :: l.tokens }.Shows ⟨s.depth, t :: s.tokens, rest, false⟩ :=
  ⟨h.indent, h.indents, h.optional, h.flow, congrArg (t :: ·) h.tokens, hc, nofun⟩

section Steps
variable {depth : Nat} {ts : List Token} {allows : Bool} {t : Token}

theorem head_of_rest (h : l.cursor.rest = x :: rest) : l.cursor.head = x := by
  rw [Cursor.head, h]
  rfl

theorem scans_open (hread : ∀ l : Lexer, l.cursor.head = x → l.readToken = l.openBracket t) (hstart : isTokenStart x = true) :
    Scans ⟨depth, ts, x :: rest, allows⟩ ⟨depth + 1, t :: ts, rest, true⟩ := by
  refine scans_of_turn rfl hstart (by simp) fun l h hcursor => ?_
  obtain rfl : l.flow = depth := h.flow
  obtain ⟨pending, hnote, hpending, -⟩ := h.exists_notePending
  refine ⟨_, ?_, ((h.withPending hpending).moved (l.flow + 1) true).pushed hcursor t⟩
  rw [hread l (head_of_rest hcursor), openBracket, hnote]
  rfl

theorem scans_close (hread : ∀ l : Lexer, l.cursor.head = x → l.readToken = l.closeBracket t) (hstart : isTokenStart x = true) :
    Scans ⟨depth + 1, ts, x :: rest, allows⟩ ⟨depth, t :: ts, rest, false⟩ := by
  refine scans_of_turn rfl hstart (by simp) fun l h hcursor => ?_
  obtain ⟨pending, hdrop, hpending⟩ := h.exists_dropPending
  have hflow : l.flow = depth + 1 := h.flow
  refine ⟨_, ?_, ((h.withPending hpending).moved depth false).pushed hcursor t⟩
  have hopen : ¬l.flow = 0 := by omega
  have hless : l.flow - 1 = depth := by omega
  rw [hread l (head_of_rest hcursor), closeBracket, hdrop, ← hless]
  exact if_neg hopen

theorem scans_comma : Scans ⟨depth, ts, ',' :: rest, allows⟩ ⟨depth, .flowEntry :: ts, rest, true⟩ := by
  refine scans_of_turn rfl rfl (by simp) fun l h hcursor => ?_
  obtain rfl : l.flow = depth := h.flow
  obtain ⟨pending, hdrop, hpending⟩ := h.exists_dropPending
  have hread : l.readToken = l.flowEntry := by simp [readToken, head_of_rest hcursor]
  refine ⟨_, ?_, ((h.withPending hpending).moved l.flow true).pushed hcursor .flowEntry⟩
  rw [hread, flowEntry, hdrop]
  rfl

theorem readToken_quote (h : l.cursor.rest = '"' :: rest) : l.readToken = l.keyStart fun c => do
    let (text, c) ← quotedScalar c
    return (.scalar text false, c) := by
  simp [readToken, head_of_rest h]

theorem keyStart_eq_ok {l₁ : Lexer} {read : Cursor → Except Failure (Token × Cursor)} {c : Cursor}
    (hnote : l.notePending = .ok l₁) (hread : read l₁.cursor = .ok (t, c)) :
    l.keyStart read = .ok { l₁ with cursor := c, allowKey := false, tokens := t :: l₁.tokens } := by
  rw [keyStart, hnote]
  simp only [bind, Except.bind, hread]
  rfl

theorem keyStart_eq_error {l₁ : Lexer} {read : Cursor → Except Failure (Token × Cursor)} {fault : Failure}
    (hnote : l.notePending = .ok l₁) (hread : read l₁.cursor = .error fault) : l.keyStart read = .error fault := by
  rw [keyStart, hnote]
  simp only [bind, Except.bind, hread]

theorem exists_string (s : String) (rest : List Char) : ∃ further, (Json.string s).toList ++ rest = '"' :: further := by
  rw [Json.string, String.toList_ofList, List.cons_append, List.cons_append]
  exact ⟨_, rfl⟩

/-- A key that was noted with some tokens before it, the only one in its brackets. -/
structure Noted (l : Lexer) (place : Nat) (key : PendingKey) : Prop where
  pending : ∃ further, l.pending = (l.flow, key) :: further ∧ ∀ p ∈ further, p.1 ≠ l.flow
  place : key.place = place

/-- A text is known as a key if it is written in one line and is not too long. -/
def isSimpleKey (s : String) : Bool := !s.toList.any isLineEnd && (Json.string s).toList.length ≤ keyLimit

/-- After a text in quotes, a key that began with it is fresh if the text is a simple key. -/
theorem isFresh_skip {s : String} (hcursor : l.cursor.rest = (Json.string s).toList ++ rest) {l' : Lexer}
    (hskip : l'.cursor = l.cursor.skip (Json.string s).toList.length) {key : PendingKey} (hline : key.line = l.cursor.line)
    (hindex : key.index = l.cursor.index) : l'.isFresh key = isSimpleKey s := by
  have hsize : l'.cursor.index - key.index = (Json.string s).toList.length := by
    rw [hskip, hindex, Cursor.skip_index hcursor]
    omega
  have hsame : (key.line != l'.cursor.line) = s.toList.any isLineEnd := by
    rw [hskip, hline]
    cases hends : s.toList.any isLineEnd with
    | true =>
      obtain ⟨x, hx, hbreak, hreturn⟩ := exists_isBreak_string hends
      exact bne_iff_ne.2 (Nat.ne_of_lt (Cursor.line_lt_skip hcursor hx hbreak hreturn))
    | false =>
      rw [Cursor.skip_line hcursor (isBreak_string hends)]
      exact bne_self_eq_false _
  rw [isFresh, hsame, hsize, isSimpleKey, Bool.not_or, ← decide_not, decide_eq_decide.2 Nat.not_lt]

/-- A text in quotes is one scalar, and a key has been noted at its front if one is allowed there. -/
theorem Shows.readToken_quoted {s : String} (hs : hasMark s.toList = false)
    (h : l.Shows ⟨depth, ts, (Json.string s).toList ++ rest, allows⟩) (hcursor : l.cursor.rest = (Json.string s).toList ++ rest) :
    ∃ l' : Lexer, l.readToken = .ok l' ∧ l'.Shows ⟨depth, .scalar (foldedText s) false :: ts, rest, false⟩ ∧
      l'.cursor.rest = rest ∧ (allows = true → ∃ key, l'.Noted ts.length key ∧ l'.isFresh key = isSimpleKey s) := by
  obtain ⟨further, hquote⟩ := exists_string s rest
  obtain ⟨pending, hnote, hpending, hnoted⟩ := h.exists_notePending
  have hread := quotedScalar_string hcursor
  rw [hs, if_neg Bool.false_ne_true] at hread
  have hrest : (l.cursor.skip (Json.string s).toList.length).rest = rest := by
    rw [Cursor.skip_rest, hcursor, List.drop_left]
  refine ⟨_, ?_, (h.withPending hpending).taken (congrArg _ hrest) (.scalar (foldedText s) false) false, hrest,
    fun hallows => ?_⟩
  · exact (readToken_quote (hcursor.trans hquote)).trans
      (keyStart_eq_ok hnote (by simp only [bind, Except.bind, hread]; rfl))
  · obtain ⟨others, hothers, hapart⟩ := hnoted (h.allowsKey hallows)
    refine ⟨_, ⟨⟨others, hothers, hapart⟩, congrArg List.length h.tokens⟩, ?_⟩
    refine isFresh_skip hcursor ?_ rfl rfl
    dsimp only

theorem length_string_pos (s : String) : 0 < (Json.string s).toList.length := by
  obtain ⟨more, hmore⟩ := exists_string s []
  rw [← List.append_nil (Json.string s).toList, hmore]
  exact Nat.succ_pos _

theorem scans_quoted {s : String} (hs : hasMark s.toList = false) : Scans ⟨depth, ts, (Json.string s).toList ++ rest, allows⟩
    ⟨depth, .scalar (foldedText s) false :: ts, rest, false⟩ := by
  obtain ⟨further, hquote⟩ := exists_string s rest
  have hpos := length_string_pos s
  refine scans_of_turn hquote rfl (by simp [hpos]) fun l h hcursor => ?_
  obtain ⟨l', hread, hl', -⟩ := h.readToken_quoted hs hcursor
  exact ⟨l', hread, hl'⟩

/-- A text in quotes is no scalar if a mark stands at the front of a line in it. -/
theorem halts_quoted {s : String} (hs : hasMark s.toList = true) : Halts ⟨depth, ts, (Json.string s).toList ++ rest, allows⟩ := by
  obtain ⟨further, hquote⟩ := exists_string s rest
  refine halts_of_turn hquote rfl fun l h hcursor => ?_
  obtain ⟨pending, hnote, -⟩ := h.exists_notePending
  have hread := quotedScalar_string hcursor
  rw [hs, if_pos rfl] at hread
  exact (readToken_quote (hcursor.trans hquote)).trans (keyStart_eq_error hnote (by simp only [bind, Except.bind, hread]))

/-- What follows a scalar in brackets, after blanks and line feeds. -/
def Closes (after : List Char) : Prop :=
  ∃ layout x rest, IsLayout layout ∧ IsClosing x ∧ after = layout ++ x :: rest

/-- Characters that begin something other than a plain scalar. -/
def marks : List Char :=
  ['%', '-', '.', '[', ']', '\x7b', '\x7d', ',', '?', ':', '*', '&', '!', '|', '>', '\'', '"', '#', '@', '\x60']

theorem of_isAlphanum (hbare : x ∈ bareChars) (hx : x.isAlphanum = true) : isTokenStart x = true ∧ ∀ m ∈ marks, x ≠ m := by
  have hall : bareChars.all (fun x => !x.isAlphanum || (isTokenStart x && !marks.contains x)) = true := by decide
  have hone := List.all_eq_true.1 hall x hbare
  simp only [hx, Bool.not_true, Bool.false_or, Bool.and_eq_true, Bool.not_eq_true'] at hone
  refine ⟨hone.1, fun m hm heq => ?_⟩
  have hcontains : marks.contains x = true := by simpa [heq] using hm
  rw [hcontains] at hone
  exact absurd hone.2 (by decide)

theorem readToken_alphanum (h : l.cursor.rest = x :: rest) (hbare : x ∈ bareChars) (hx : x.isAlphanum = true)
    (hflow : l.flow ≠ 0) : l.readToken = l.plain := by
  have hmarks := (of_isAlphanum hbare hx).2
  have hspace := (of_mem_bareChars hbare).1
  simp only [marks, List.forall_mem_cons, List.not_mem_nil, false_imp_iff, implies_true, and_true] at hmarks
  simp [readToken, head_of_rest h, hmarks, startsPlain, hspace, hflow]

theorem readToken_minus {d : Char} (h : l.cursor.rest = '-' :: d :: rest) (hbare : d ∈ bareChars)
    (hd : d.isAlphanum = true) : l.readToken = l.plain := by
  have hmarks := (of_isAlphanum hbare hd).2
  have hspace := (of_mem_bareChars hbare).1
  have hword : l.cursor.peek 1 = d := by rw [Cursor.peek, h]; rfl
  have hdash : d ≠ '-' := hmarks '-' (by decide)
  have hline : l.cursor.isDocumentMark = false := by simp [Cursor.isDocumentMark, h, hdash]
  simp [readToken, head_of_rest h, startsPlain, hword, hspace, hline]

/-- What JSON writes without quotes begins a plain scalar. -/
theorem readToken_bare {cs : List Char} (h : l.cursor.rest = cs ++ rest) (hcs : Bare cs) (hflow : l.flow ≠ 0) :
    l.readToken = l.plain := by
  obtain ⟨negative, d, more, rfl, hd, hmore⟩ := hcs
  have hbare := hmore d (by simp)
  cases negative with
  | true => exact readToken_minus h hbare hd
  | false => exact readToken_alphanum h hbare hd hflow

theorem Bare.exists_cons {cs : List Char} (h : Bare cs) : ∃ x more, cs = x :: more ∧ isTokenStart x = true := by
  obtain ⟨negative, d, more, rfl, hd, hmore⟩ := h
  cases negative with
  | true => exact ⟨'-', d :: more, rfl, rfl⟩
  | false => exact ⟨d, more, rfl, (of_isAlphanum (hmore d (by simp)) hd).1⟩

theorem Bare.mem_bareChars {cs : List Char} (h : Bare cs) : ∀ x ∈ cs, x ∈ bareChars := by
  obtain ⟨negative, d, more, rfl, -, hmore⟩ := h
  intro x hx
  obtain hx | hx := List.mem_append.1 hx
  · rw [mem_minus hx]
    decide
  · exact hmore x hx

theorem scans_bare {cs after : List Char} (hcs : Bare cs) (hafter : Closes after) :
    Scans ⟨depth + 1, ts, cs ++ after, allows⟩ ⟨depth + 1, .scalar (String.ofList cs) true :: ts, after, false⟩ := by
  obtain ⟨x, more, hcons, hstart⟩ := Bare.exists_cons hcs
  have hrest : cs ++ after = x :: (more ++ after) := by rw [hcons, List.cons_append]
  refine scans_of_turn hrest hstart (by simp [hcons]) fun l h hcursor => ?_
  have hflow : l.flow ≠ 0 := by
    rw [h.flow]
    exact Nat.succ_ne_zero depth
  obtain ⟨pending, hnote, hpending, -⟩ := h.exists_notePending
  obtain ⟨layout, y, rest, hlayout, hy, rfl⟩ := hafter
  obtain ⟨allowKey, c, hread, hc⟩ := plainScalar_bare (by simp [hcons]) (Bare.mem_bareChars hcs) hlayout hy hcursor l.indent
  have hplace : c.rest.dropWhile isBlankOrFeed = (layout ++ y :: rest).dropWhile isBlankOrFeed := by
    rw [hc, List.dropWhile_append_of_pos]
    intro z hz
    simpa [isBlankOrFeed] using hlayout z hz
  refine ⟨_, ?_, (h.withPending hpending).taken hplace (.scalar (String.ofList cs) true) allowKey⟩
  have hbrackets : (l.flow != 0) = true := bne_iff_ne.2 hflow
  rw [readToken_bare hcursor hcs hflow, plain, hnote]
  simp only [bind, Except.bind, hbrackets, hread]
  rfl

theorem toNextToken_self (h : l.cursor.rest = x :: rest) (hstart : isTokenStart x = true) : l.toNextToken = l := by
  simp only [isTokenStart, Bool.and_eq_true, bne_iff_ne, Bool.not_eq_true'] at hstart
  obtain ⟨⟨⟨hspace, hmark⟩, hbreak⟩, horder⟩ := hstart
  have hhead := head_of_rest h
  have hskip : l.cursor.skipWhile (· == ' ') = l.cursor := by
    have hrest : l.cursor.rest = [] ++ x :: rest := h
    rw [Cursor.skipWhile, Cursor.takeWhile_eq hrest (List.forall_mem_nil _) (by simpa using hspace)]
    rfl
  rw [toNextToken, if_neg fun hfront => horder (hhead ▸ hfront.2), passSpace, hskip, if_neg (by simpa [hhead] using hmark),
    Cursor.lineBreak?_eq_none h hbreak]

/-- A colon after a scalar that is noted as a possible key. -/
theorem Shows.readToken_colon {token : Token} (h : l.Shows ⟨depth + 1, token :: ts, ':' :: rest, allows⟩)
    (hcursor : l.cursor.rest = ':' :: rest) {key : PendingKey} (hnoted : l.Noted ts.length key) :
    ∃ l', l.readToken = .ok l' ∧ l'.Shows ⟨depth + 1, .value :: token :: .key :: ts, rest, false⟩ := by
  obtain ⟨further, hpending, -⟩ := hnoted.pending
  have hflow : l.flow ≠ 0 := by
    rw [h.flow]
    exact Nat.succ_ne_zero depth
  have hread : l.readToken = l.valueMark := by simp [readToken, head_of_rest hcursor, hflow]
  have hfind : l.pending.find? (fun (d, _) => d = l.flow) = some (l.flow, key) := by simp [hpending]
  have htokens : l.tokens.insertIdx (l.tokens.length - key.place) .key = token :: .key :: ts := by
    rw [h.tokens, hnoted.place, List.length_cons, Nat.add_sub_cancel_left]
    rfl
  have hothers : ∀ p ∈ l.pending.filter fun (d, _) => d != l.flow, p.2.required = false :=
    fun p hp => h.optional p (List.mem_filter.1 hp).1
  have hmark : l.valueMark = .ok (({ l with
      pending := l.pending.filter fun (d, _) => d != l.flow, tokens := token :: .key :: ts, allowKey := false }.push
        .value).skip 1) := by
    rw [valueMark, hfind]
    simp only [insert, htokens]
    rw [if_neg hflow]
    rfl
  refine ⟨_, hread.trans hmark, ?_⟩
  exact ⟨h.indent, h.indents, hothers, h.flow, rfl, by simp [Lexer.skip, push, hcursor], nofun⟩

/-- A colon where no key is noted in its brackets. -/
theorem Shows.readToken_mark (h : l.Shows ⟨depth + 1, ts, ':' :: rest, allows⟩) (hcursor : l.cursor.rest = ':' :: rest)
    (hnone : ∀ p ∈ l.pending, p.1 ≠ l.flow) :
    ∃ l', l.readToken = .ok l' ∧ l'.Shows ⟨depth + 1, .value :: ts, rest, false⟩ := by
  have hflow : l.flow ≠ 0 := by
    rw [h.flow]
    exact Nat.succ_ne_zero depth
  have hread : l.readToken = l.valueMark := by simp [readToken, head_of_rest hcursor, hflow]
  have hfind : l.pending.find? (fun (d, _) => d = l.flow) = none := by simpa using fun d k hk => hnone (d, k) hk
  obtain ⟨pending, hdrop, hpending⟩ := h.exists_dropPending
  have hmark : l.valueMark = .ok (({ l with pending := pending, allowKey := false }.push .value).skip 1) := by
    rw [valueMark, hfind]
    simp [mappingMark, hflow, hdrop, bind, Except.bind, pure, Except.pure, allow]
  refine ⟨_, hread.trans hmark, ?_⟩
  exact ⟨h.indent, h.indents, hpending, h.flow, congrArg (Token.value :: ·) h.tokens, by simp [Lexer.skip, push, hcursor],
    nofun⟩

/-- A text in quotes and a colon after it. The key is noted where the text begins, and is still known at the colon if it
is simple. -/
theorem scans_key {s : String} (hs : hasMark s.toList = false) :
    Scans ⟨depth + 1, ts, (Json.string s).toList ++ ':' :: rest, true⟩
      ⟨depth + 1, .value :: .scalar (foldedText s) false :: ((if isSimpleKey s then [.key] else []) ++ ts), rest, false⟩ := by
  intro l h
  obtain ⟨further, hquote⟩ := exists_string s (':' :: rest)
  obtain ⟨hshows, hcursor⟩ := h.toNextToken (by rw [hquote]; rfl)
  obtain ⟨l₁, hread, hl₁, hcolon, hnoted⟩ := hshows.fresh.readToken_quoted hs hcursor
  obtain ⟨key, hkey, hsimple⟩ := hnoted rfl
  obtain ⟨further, hpending, hapart⟩ := hkey.pending
  obtain ⟨l₂, hread', hl₂⟩ : ∃ l₂, l₁.fresh.readToken = .ok l₂ ∧ l₂.Shows ⟨depth + 1, .value :: .scalar (foldedText s) false ::
      ((if isSimpleKey s then [.key] else []) ++ ts), rest, false⟩ := by
    have hothers : ∀ p ∈ further.filter fun p => l₁.isFresh p.2, p.1 ≠ l₁.flow :=
      fun p hp => hapart p (List.mem_filter.1 hp).1
    cases hkind : isSimpleKey s with
    | true =>
      rw [hkind] at hsimple
      have hkept : l₁.fresh.Noted ts.length key :=
        ⟨⟨further.filter fun p => l₁.isFresh p.2, by simp [Lexer.fresh, hpending, hsimple], hothers⟩, hkey.place⟩
      exact hl₁.fresh.readToken_colon hcolon hkept
    | false =>
      rw [hkind] at hsimple
      have hnone : l₁.fresh.pending = further.filter fun p => l₁.isFresh p.2 := by simp [Lexer.fresh, hpending, hsimple]
      exact hl₁.fresh.readToken_mark hcolon (by rw [hnone]; exact hothers)
  have hpos := length_string_pos s
  refine ⟨l₂, 2, hl₂, ?_, fun fuel => ?_⟩
  · simp only [List.length_append, List.length_cons]
    omega
  · rw [h.run_succ hquote rfl, hread]
    simp only [Except.bind]
    rw [hl₁.run_succ rfl rfl, toNextToken_self hcolon rfl, hread']
    rfl

end Steps

end Lexer

end Flowline.Yaml
