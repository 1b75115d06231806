import Flowline.Proofs.Yaml.Scanning

/-! # The tokens of JSON values

The text of a value in the layout of documents is read as the tokens of the value, unless a text in it has a character
that is not allowed or a mark at the front of a line (`tokenize_document`). -/

namespace Flowline

namespace Value

mutual

/-- The scalars in a value, its keys among them. -/
def scalars : Value → List Scalar
  | .scalar s => [s]
  | .list items => scalarsOfItems items
  | .map entries => scalarsOfEntries entries
  | .set items => items

def scalarsOfItems : List Value → List Scalar
  | [] => []
  | v :: rest => v.scalars ++ scalarsOfItems rest

def scalarsOfEntries : List (Scalar × Value) → List Scalar
  | [] => []
  | (k, v) :: rest => k :: (v.scalars ++ scalarsOfEntries rest)

end

mutual

/-- The keys of all mappings in a value. -/
def keys : Value → List Scalar
  | .scalar _ => []
  | .list items => keysOfItems items
  | .map entries => keysOfEntries entries
  | .set _ => []

def keysOfItems : List Value → List Scalar
  | [] => []
  | v :: rest => v.keys ++ keysOfItems rest

def keysOfEntries : List (Scalar × Value) → List Scalar
  | [] => []
  | (k, v) :: rest => k :: (v.keys ++ keysOfEntries rest)

end

end Value

/-! ## Texts that are refused -/

/-- The characters of a text are allowed in YAML, or escaped in JSON. -/
def Scalar.isClean : Scalar → Bool
  | .str s => s.toList.all fun c => c.toNat < 32 || Yaml.isAllowed c
  | _ => true

/-- No document seems to begin or end within a text. -/
def Scalar.isUnmarked : Scalar → Bool
  | .str s => !Yaml.hasMark s.toList
  | _ => true

/-- A key is known as one by the colon behind it. -/
def Scalar.isSimpleKey : Scalar → Bool
  | .str k => Yaml.Lexer.isSimpleKey k
  | _ => true

/-- What JSON writes for a value is read by YAML: its texts are allowed and have no marks, and its keys are known as
keys. -/
def Value.isReadable (v : Value) : Bool :=
  v.scalars.all Scalar.isClean && v.scalars.all Scalar.isUnmarked && v.keys.all Scalar.isSimpleKey

namespace Yaml

/-! ## The tokens of a value -/

/-- What JSON writes for a scalar without quotes. -/
def plainText (s : Scalar) : String :=
  match Json.scalar .document s with
  | .ok text => text
  | .error _ => ""

def scalarToken : Scalar → Token
  | .str s => .scalar (foldedText s) false
  | s => .scalar (plainText s) true

/-- The tokens of parts between brackets, with commas between them. -/
def bracketedTokens (opening closing : Token) (parts : List (List Token)) : List Token :=
  opening :: ((parts.flatMap (Token.flowEntry :: ·)).tail ++ [closing])

mutual

def valueTokens : Value → List Token
  | .scalar s => [scalarToken s]
  | .list items => bracketedTokens .flowSequenceStart .flowSequenceEnd (itemTokens items)
  | .map entries => bracketedTokens .flowMappingStart .flowMappingEnd (entryTokens entries)
  | .set _ => []

def itemTokens : List Value → List (List Token)
  | [] => []
  | v :: rest => valueTokens v :: itemTokens rest

def entryTokens : List (Scalar × Value) → List (List Token)
  | [] => []
  | (k, v) :: rest =>
    ((if k.isSimpleKey then [.key] else []) ++ scalarToken k :: .value :: valueTokens v) :: entryTokens rest

end

/-! ## The layout of documents -/

def newline (level : Nat) : List Char := '\n' :: List.replicate (2 * level) ' '

/-- Parts on lines of their own, each after a comma. -/
def joined (level : Nat) (parts : List String) : List Char := parts.flatMap fun p => ',' :: (newline level ++ p.toList)

theorem isLayout_nil : IsLayout [] := List.forall_mem_nil _

theorem isLayout_newline (level : Nat) : IsLayout (newline level) := by
  intro x hx
  obtain rfl | hx := List.mem_cons.1 hx
  · exact .inr rfl
  · exact .inl (List.eq_of_mem_replicate hx)

theorem toList_intercalate (level : Nat) (p : String) (ps : List String) :
    ((("," : String) ++ ("\n" ++ String.ofList (List.replicate (2 * level) ' '))).intercalate (p :: ps)).toList =
      p.toList ++ joined level ps := by
  induction ps generalizing p with
  | nil => simp [joined]
  | cons q ps ih =>
    rw [String.intercalate_cons_cons, String.toList_append, String.toList_append, ih]
    simp [joined, newline]

theorem toList_bracketed (level : Nat) (opening closing : String) (parts : List String) :
    ∃ layout, IsLayout layout ∧ (Json.bracketed .document level opening closing parts).toList =
      opening.toList ++ ((joined (level + 1) parts).tail ++ (layout ++ closing.toList)) := by
  cases parts with
  | nil => exact ⟨[], isLayout_nil, by simp [Json.bracketed, joined]⟩
  | cons p ps =>
    refine ⟨newline level, isLayout_newline level, ?_⟩
    have hparts := toList_intercalate (level + 1) p ps
    unfold Json.bracketed Json.Style.document
    simp only [List.isEmpty_cons, Bool.false_eq_true, if_false, String.toList_append, hparts]
    simp [joined, newline]

/-! ## Reading values -/

namespace Lexer

variable {depth level : Nat} {ts part : List Token} {allows : Bool} {text rest after layout : List Char}

theorem scans_layout (hlayout : IsLayout layout) : Scans ⟨depth, ts, layout ++ rest, allows⟩ ⟨depth, ts, rest, allows⟩ := by
  intro l h
  have hrest : (layout ++ rest).dropWhile isBlankOrFeed = rest.dropWhile isBlankOrFeed :=
    List.dropWhile_append_of_pos fun x hx => by simpa [isBlankOrFeed] using hlayout x hx
  exact ⟨l, 0, ⟨h.indent, h.indents, h.optional, h.flow, h.tokens, h.rest.trans hrest, h.allowsKey⟩, by simp, fun _ => rfl⟩

theorem scans_forget : Scans ⟨depth, ts, rest, allows⟩ ⟨depth, ts, rest, false⟩ := fun l h =>
  ⟨l, 0, ⟨h.indent, h.indents, h.optional, h.flow, h.tokens, h.rest, nofun⟩, by simp, fun _ => rfl⟩

/-- A text is read as some tokens inside brackets, before what may follow there and perhaps where a key is allowed. -/
def Reads (allows : Bool) (text : List Char) (part : List Token) : Prop :=
  ∀ {depth : Nat} {ts : List Token} {after : List Char}, Closes after →
    Scans ⟨depth + 1, ts, text ++ after, allows⟩ ⟨depth + 1, part.reverse ++ ts, after, false⟩

theorem closes_closing {x : Char} (hlayout : IsLayout layout) (hx : IsClosing x) : Closes (layout ++ x :: rest) :=
  ⟨layout, x, rest, hlayout, hx, rfl⟩

theorem closes_joined (level : Nat) (parts : List String) (hafter : Closes after) : Closes (joined level parts ++ after) := by
  cases parts with
  | nil => exact hafter
  | cons p ps =>
    rw [joined, List.flatMap_cons, List.append_assoc, List.cons_append]
    exact ⟨[], _, _, isLayout_nil, .inl rfl, rfl⟩

/-- Parts on lines of their own are read one after the other. -/
theorem reads_parts {parts : List String} {toks : List (List Token)}
    (h : List.Forall₂ (fun p part => Reads true p.toList part) parts toks) :
    Reads true (joined level parts).tail (toks.flatMap (Token.flowEntry :: ·)).tail := by
  induction h with
  | nil => exact fun _ => scans_forget
  | @cons p part ps toks hpart hrest ih =>
    intro depth ts after hafter
    have hcloses : Closes (joined level ps ++ after) := closes_joined level ps hafter
    have htext : (joined level (p :: ps)).tail ++ after = newline level ++ (p.toList ++ (joined level ps ++ after)) := by
      simp [joined]
    have hpartTokens : ((part :: toks).flatMap (Token.flowEntry :: ·)).tail = part ++ toks.flatMap (Token.flowEntry :: ·) := by
      simp
    rw [htext, hpartTokens]
    refine (scans_layout (isLayout_newline level)).trans ((hpart hcloses).trans ?_)
    cases hrest with
    | nil =>
      simp only [joined, List.flatMap_nil, List.append_nil, List.nil_append]
      exact .refl _
    | @cons q part' qs toks' _ _ =>
      have hcomma : joined level (q :: qs) = ',' :: (joined level (q :: qs)).tail := by simp [joined]
      have hentry : (part' :: toks').flatMap (Token.flowEntry :: ·) =
          .flowEntry :: ((part' :: toks').flatMap (Token.flowEntry :: ·)).tail := by simp
      rw [hcomma, hentry, List.cons_append, List.reverse_append, List.reverse_cons, List.append_assoc, List.append_assoc]
      exact scans_comma.trans (ih hafter)

/-- Parts between brackets, at any depth and before anything. -/
theorem scans_bracketed {o c : Char} {opening closing : String} {tOpen tClose : Token} {parts : List String}
    {toks : List (List Token)} (hopening : opening.toList = [o]) (hclosing : closing.toList = [c]) (hc : IsClosing c)
    (hopen : ∀ {depth ts rest allows}, Scans ⟨depth, ts, o :: rest, allows⟩ ⟨depth + 1, tOpen :: ts, rest, true⟩)
    (hclose : ∀ {depth ts rest allows}, Scans ⟨depth + 1, ts, c :: rest, allows⟩ ⟨depth, tClose :: ts, rest, false⟩)
    (h : List.Forall₂ (fun p part => Reads true p.toList part) parts toks) :
    Scans ⟨depth, ts, (Json.bracketed .document level opening closing parts).toList ++ after, allows⟩
      ⟨depth, (bracketedTokens tOpen tClose toks).reverse ++ ts, after, false⟩ := by
  obtain ⟨layout, hlayout, htext⟩ := toList_bracketed level opening closing parts
  have hcloses : Closes (layout ++ c :: after) := closes_closing hlayout hc
  have hall : (Json.bracketed .document level opening closing parts).toList ++ after =
      o :: ((joined (level + 1) parts).tail ++ (layout ++ c :: after)) := by
    rw [htext, hopening, hclosing]
    simp
  have htokens : (bracketedTokens tOpen tClose toks).reverse ++ ts =
      tClose :: ((toks.flatMap (Token.flowEntry :: ·)).tail.reverse ++ tOpen :: ts) := by
    simp [bracketedTokens]
  rw [hall, htokens]
  exact hopen.trans ((reads_parts h hcloses).trans ((scans_layout hlayout).trans hclose))

theorem readToken_bracket (l : Lexer) (hl : l.cursor.head = '[') : l.readToken = l.openBracket .flowSequenceStart := by
  simp [readToken, hl]

theorem readToken_brace (l : Lexer) (hl : l.cursor.head = '\x7b') : l.readToken = l.openBracket .flowMappingStart := by
  simp [readToken, hl]

theorem scans_list {parts : List String} {toks : List (List Token)}
    (h : List.Forall₂ (fun p part => Reads true p.toList part) parts toks) :
    Scans ⟨depth, ts, (Json.bracketed .document level "[" "]" parts).toList ++ after, allows⟩
      ⟨depth, (bracketedTokens .flowSequenceStart .flowSequenceEnd toks).reverse ++ ts, after, false⟩ := by
  have hclose (l : Lexer) (hl : l.cursor.head = ']') : l.readToken = l.closeBracket .flowSequenceEnd := by simp [readToken, hl]
  exact scans_bracketed rfl rfl (.inr (.inl rfl)) (scans_open readToken_bracket rfl) (scans_close hclose rfl) h

theorem scans_map {parts : List String} {toks : List (List Token)}
    (h : List.Forall₂ (fun p part => Reads true p.toList part) parts toks) :
    Scans ⟨depth, ts, (Json.bracketed .document level "\x7b" "\x7d" parts).toList ++ after, allows⟩
      ⟨depth, (bracketedTokens .flowMappingStart .flowMappingEnd toks).reverse ++ ts, after, false⟩ := by
  have hclose (l : Lexer) (hl : l.cursor.head = '\x7d') : l.readToken = l.closeBracket .flowMappingEnd := by simp [readToken, hl]
  exact scans_bracketed rfl rfl (.inr (.inr rfl)) (scans_open readToken_brace rfl) (scans_close hclose rfl) h

theorem reads_string {s : String} (hs : hasMark s.toList = false) :
    Reads allows (Json.string s).toList [scalarToken (.str s)] := fun _ => scans_quoted hs

theorem reads_bare {s : Scalar} (hstr : ∀ t, s ≠ .str t) {text : String} (h : Json.scalar .document s = .ok text) :
    Reads allows text.toList [scalarToken s] := by
  intro depth ts after hafter
  have htoken : scalarToken s = .scalar (String.ofList text.toList) true := by
    have hplain : plainText s = text := by rw [plainText, h]
    cases s with
    | str t => exact absurd rfl (hstr t)
    | _ => simp [scalarToken, hplain]
  rw [htoken]
  exact scans_bare (bare_scalar hstr h) hafter

/-- A key, a colon and a blank. -/
theorem scans_name {k body : String} (hk : hasMark k.toList = false) :
    Scans ⟨depth + 1, ts, (Json.string k ++ ": " ++ body).toList ++ after, true⟩
      ⟨depth + 1, .value :: scalarToken (.str k) :: ((if isSimpleKey k then [.key] else []) ++ ts), body.toList ++ after, false⟩ := by
  have htext : (Json.string k ++ ": " ++ body).toList ++ after =
      (Json.string k).toList ++ ':' :: ([' '] ++ (body.toList ++ after)) := by simp
  rw [htext]
  exact (scans_key hk).trans (scans_layout (by simp [IsLayout]))

/-- A key, a colon and a blank, and what a value is read as. -/
theorem reads_entry {k : String} (hk : hasMark k.toList = false) {body : String} (h : Reads false body.toList part) :
    Reads true (Json.string k ++ ": " ++ body).toList
      ((if isSimpleKey k then [.key] else []) ++ scalarToken (.str k) :: .value :: part) := by
  intro depth ts after hafter
  have hname : Scans ⟨depth + 1, ts, (Json.string k ++ ": " ++ body).toList ++ after, true⟩ _ := scans_name hk
  have hscans := hname.trans (h hafter)
  cases hsimple : isSimpleKey k with
  | true => simpa [hsimple] using hscans
  | false => simpa [hsimple] using hscans

mutual

/-- The text of a value whose texts have no marks is read as its tokens. -/
theorem reads_value : ∀ (v : Value) (level : Nat) (text : String), Json.write .document level v = .ok text →
    v.isJson = true → v.scalars.all Scalar.isUnmarked = true → ∀ allows, Reads allows text.toList (valueTokens v)
  | .scalar s, _, text, h, _, hmarks, allows => by
    by_cases hstr : ∃ t, s = .str t
    · obtain ⟨t, rfl⟩ := hstr
      cases h
      exact reads_string (by simpa [Value.scalars, Scalar.isUnmarked] using hmarks)
    · exact reads_bare (fun t heq => hstr ⟨t, heq⟩) h
  | .list items, level, text, h, hjson, hmarks, allows => by
    obtain ⟨parts, hparts, h⟩ := bind_eq_ok.1 h
    cases h
    exact fun _ => scans_list (reads_items items (level + 1) parts hparts hjson hmarks)
  | .map entries, level, text, h, hjson, hmarks, allows => by
    obtain ⟨parts, hparts, h⟩ := bind_eq_ok.1 h
    cases h
    exact fun _ => scans_map (reads_entries entries (level + 1) parts hparts hjson hmarks)
  | .set _, _, _, h, _, _, _ => nomatch h

theorem reads_items : ∀ (items : List Value) (level : Nat) (parts : List String),
    Json.writeItems .document level items = .ok parts → Value.allJson items = true →
    (Value.scalarsOfItems items).all Scalar.isUnmarked = true →
    List.Forall₂ (fun p part => Reads true p.toList part) parts (itemTokens items)
  | [], _, parts, h, _, _ => by
    cases h
    exact .nil
  | v :: rest, level, parts, h, hjson, hmarks => by
    obtain ⟨first, hfirst, h⟩ := bind_eq_ok.1 h
    obtain ⟨others, hothers, h⟩ := bind_eq_ok.1 h
    cases h
    rw [Value.allJson, Bool.and_eq_true] at hjson
    rw [Value.scalarsOfItems, List.all_append, Bool.and_eq_true] at hmarks
    exact .cons (reads_value v level first hfirst hjson.1 hmarks.1 true)
      (reads_items rest level others hothers hjson.2 hmarks.2)

theorem reads_entries : ∀ (entries : List (Scalar × Value)) (level : Nat) (parts : List String),
    Json.writeEntries .document level entries = .ok parts → Value.entriesJson entries = true →
    (Value.scalarsOfEntries entries).all Scalar.isUnmarked = true →
    List.Forall₂ (fun p part => Reads true p.toList part) parts (entryTokens entries)
  | [], _, parts, h, _, _ => by
    cases h
    exact .nil
  | (.str k, v) :: rest, level, parts, h, hjson, hmarks => by
    obtain ⟨name, ⟨⟩, h⟩ := bind_eq_ok.1 h
    obtain ⟨body, hbody, h⟩ := bind_eq_ok.1 h
    obtain ⟨others, hothers, h⟩ := bind_eq_ok.1 h
    cases h
    rw [Value.entriesJson, Bool.and_eq_true] at hjson
    simp only [Value.scalarsOfEntries, List.all_cons, List.all_append, Bool.and_eq_true] at hmarks
    obtain ⟨hkey, hvalue, hrest⟩ := hmarks
    exact .cons (reads_entry (by simpa [Scalar.isUnmarked] using hkey) (reads_value v level body hbody hjson.1 hvalue false))
      (reads_entries rest level others hothers hjson.2 hrest)

end

/-! ## Values that are refused -/

/-- A text is no part of a document inside brackets. -/
def Refuses (allows : Bool) (text : List Char) : Prop :=
  ∀ {depth : Nat} {ts : List Token} {after : List Char}, Closes after → Halts ⟨depth + 1, ts, text ++ after, allows⟩

/-- After parts that are read, one is refused. -/
def RefusesPart (parts : List String) : Prop :=
  ∃ before p later toks, parts = before ++ p :: later ∧
    List.Forall₂ (fun p part => Reads true p.toList part) before toks ∧ Refuses true p.toList

theorem RefusesPart.cons {parts : List String} {p : String} (hp : Reads true p.toList part) (h : RefusesPart parts) :
    RefusesPart (p :: parts) := by
  obtain ⟨before, q, later, toks, rfl, hbefore, hq⟩ := h
  exact ⟨p :: before, q, later, part :: toks, rfl, .cons hp hbefore, hq⟩

theorem RefusesPart.first {p : String} (hp : Refuses true p.toList) (parts : List String) : RefusesPart (p :: parts) :=
  ⟨[], p, parts, [], rfl, .nil, hp⟩

theorem joined_cons (level : Nat) (p : String) (ps : List String) :
    joined level (p :: ps) = ',' :: (newline level ++ (p.toList ++ joined level ps)) := by
  simp [joined]

theorem halts_parts {parts : List String} (h : RefusesPart parts) (hafter : Closes after) :
    Halts ⟨depth + 1, ts, (joined level parts).tail ++ after, true⟩ := by
  obtain ⟨before, p, later, toks, rfl, hbefore, hp⟩ := h
  have hhalts {ts : List Token} : Halts ⟨depth + 1, ts, (joined level (p :: later)).tail ++ after, true⟩ := by
    rw [joined_cons, List.tail_cons, List.append_assoc, List.append_assoc]
    exact (scans_layout (isLayout_newline level)).halts (hp (closes_joined level later hafter))
  cases before with
  | nil => exact hhalts
  | cons q before =>
    have hsplit : (joined level (q :: before ++ p :: later)).tail ++ after =
        (joined level (q :: before)).tail ++ (',' :: ((joined level (p :: later)).tail ++ after)) := by
      simp [joined]
    rw [hsplit]
    exact (reads_parts hbefore ⟨[], ',', _, isLayout_nil, .inl rfl, rfl⟩).halts (scans_comma.halts hhalts)

theorem halts_bracketed {o c : Char} {opening closing : String} {tOpen : Token} {parts : List String}
    (hopening : opening.toList = [o]) (hclosing : closing.toList = [c]) (hc : IsClosing c)
    (hopen : ∀ {depth ts rest allows}, Scans ⟨depth, ts, o :: rest, allows⟩ ⟨depth + 1, tOpen :: ts, rest, true⟩)
    (h : RefusesPart parts) :
    Halts ⟨depth, ts, (Json.bracketed .document level opening closing parts).toList ++ after, allows⟩ := by
  obtain ⟨layout, hlayout, htext⟩ := toList_bracketed level opening closing parts
  have hall : (Json.bracketed .document level opening closing parts).toList ++ after =
      o :: ((joined (level + 1) parts).tail ++ (layout ++ c :: after)) := by
    rw [htext, hopening, hclosing]
    simp
  rw [hall]
  exact hopen.halts (halts_parts h (closes_closing hlayout hc))

theorem halts_list {parts : List String} (h : RefusesPart parts) :
    Halts ⟨depth, ts, (Json.bracketed .document level "[" "]" parts).toList ++ after, allows⟩ :=
  halts_bracketed rfl rfl (.inr (.inl rfl)) (scans_open readToken_bracket rfl) h

theorem halts_map {parts : List String} (h : RefusesPart parts) :
    Halts ⟨depth, ts, (Json.bracketed .document level "\x7b" "\x7d" parts).toList ++ after, allows⟩ :=
  halts_bracketed rfl rfl (.inr (.inr rfl)) (scans_open readToken_brace rfl) h

theorem refuses_entry {k body : String} (h : hasMark k.toList = false → Refuses false body.toList) :
    Refuses true (Json.string k ++ ": " ++ body).toList := by
  intro depth ts after hafter
  cases hk : hasMark k.toList with
  | true =>
    have htext : (Json.string k ++ ": " ++ body).toList ++ after = (Json.string k).toList ++ (": " ++ body).toList ++ after := by
      simp
    rw [htext, List.append_assoc]
    exact halts_quoted hk
  | false => exact (scans_name hk).halts (h hk hafter)

mutual

/-- The text of a value is refused if a text in the value has a mark. -/
theorem refuses_value : ∀ (v : Value) (level : Nat) (text : String), Json.write .document level v = .ok text →
    v.isJson = true → v.scalars.all Scalar.isUnmarked = false → ∀ allows, Refuses allows text.toList
  | .scalar (.str s), _, text, h, _, hmarks, allows => by
    cases h
    exact fun _ => halts_quoted (by simpa [Value.scalars, Scalar.isUnmarked] using hmarks)
  | .list items, level, text, h, hjson, hmarks, allows => by
    obtain ⟨parts, hparts, h⟩ := bind_eq_ok.1 h
    cases h
    exact fun _ => halts_list (refuses_items items (level + 1) parts hparts hjson hmarks)
  | .map entries, level, text, h, hjson, hmarks, allows => by
    obtain ⟨parts, hparts, h⟩ := bind_eq_ok.1 h
    cases h
    exact fun _ => halts_map (refuses_entries entries (level + 1) parts hparts hjson hmarks)

theorem refuses_items : ∀ (items : List Value) (level : Nat) (parts : List String),
    Json.writeItems .document level items = .ok parts → Value.allJson items = true →
    (Value.scalarsOfItems items).all Scalar.isUnmarked = false → RefusesPart parts
  | v :: rest, level, parts, h, hjson, hmarks => by
    obtain ⟨first, hfirst, h⟩ := bind_eq_ok.1 h
    obtain ⟨others, hothers, h⟩ := bind_eq_ok.1 h
    cases h
    rw [Value.allJson, Bool.and_eq_true] at hjson
    rw [Value.scalarsOfItems, List.all_append] at hmarks
    cases hv : v.scalars.all Scalar.isUnmarked with
    | true =>
      rw [hv, Bool.true_and] at hmarks
      exact (refuses_items rest level others hothers hjson.2 hmarks).cons (reads_value v level first hfirst hjson.1 hv true)
    | false => exact .first (refuses_value v level first hfirst hjson.1 hv true) others

theorem refuses_entries : ∀ (entries : List (Scalar × Value)) (level : Nat) (parts : List String),
    Json.writeEntries .document level entries = .ok parts → Value.entriesJson entries = true →
    (Value.scalarsOfEntries entries).all Scalar.isUnmarked = false → RefusesPart parts
  | (.str k, v) :: rest, level, parts, h, hjson, hmarks => by
    obtain ⟨name, ⟨⟩, h⟩ := bind_eq_ok.1 h
    obtain ⟨body, hbody, h⟩ := bind_eq_ok.1 h
    obtain ⟨others, hothers, h⟩ := bind_eq_ok.1 h
    cases h
    rw [Value.entriesJson, Bool.and_eq_true] at hjson
    rw [Value.scalarsOfEntries, List.all_cons, List.all_append] at hmarks
    cases hv : v.scalars.all Scalar.isUnmarked with
    | false => exact .first (refuses_entry fun _ => refuses_value v level body hbody hjson.1 hv false) others
    | true =>
      cases hk : hasMark k.toList with
      | true => exact .first (refuses_entry fun hnone => by rw [hk] at hnone; cases hnone) others
      | false =>
        have hrest : (Value.scalarsOfEntries rest).all Scalar.isUnmarked = false := by
          simpa [hv, hk, Scalar.isUnmarked] using hmarks
        exact (refuses_entries rest level others hothers hjson.2 hrest).cons
          (reads_entry hk (reads_value v level body hbody hjson.1 hv false))

end

/-- Where nothing is left and no bracket is open, the tokens are complete. -/
theorem Shows.run_end {l : Lexer} (h : l.Shows ⟨0, ts, [], allows⟩) (fuel : Nat) :
    l.run (fuel + 1) = .ok (Token.streamEnd :: ts).reverse := by
  obtain ⟨hshows, hcursor⟩ := h.toNextToken rfl
  obtain ⟨pending, hdrop, -⟩ := hshows.fresh.exists_dropPending
  have hunwind := unwind_eq hshows.fresh.indent l.toNextToken.fresh.cursor.column
  have hend : l.toNextToken.fresh.unwind (-1) = l.toNextToken.fresh := by
    rw [unwind]
    split
    · rw [unwindTo, hshows.fresh.indent, if_neg (by decide)]
    · rfl
  have hempty : l.toNextToken.fresh.cursor.rest = [] := hcursor
  have htokens : l.toNextToken.fresh.tokens = ts := hshows.fresh.tokens
  rw [run, dropStale_eq hshows.optional]
  simp only [bind, Except.bind, hunwind, hempty, List.isEmpty_nil, if_true, endBlocks, hend, hdrop, htokens]
  rfl

end Lexer

/-! ## Allowed characters -/

def Allowed (cs : List Char) : Prop := ∀ c ∈ cs, isAllowed c = true

theorem allowed_append {cs ds : List Char} : Allowed (cs ++ ds) ↔ Allowed cs ∧ Allowed ds := List.forall_mem_append

theorem allowed_layout {layout : List Char} (h : IsLayout layout) : Allowed layout := by
  intro c hc
  obtain rfl | rfl := h c hc <;> rfl

theorem allowed_joined {level : Nat} {parts : List String} :
    Allowed (joined level parts) ↔ ∀ p ∈ parts, Allowed p.toList := by
  induction parts with
  | nil => exact iff_of_true nofun nofun
  | cons p ps ih =>
    have hcomma : Allowed (',' :: newline level) :=
      List.forall_mem_cons.2 ⟨rfl, allowed_layout (isLayout_newline level)⟩
    rw [List.forall_mem_cons, ← ih, joined, List.flatMap_cons, ← List.cons_append, allowed_append, allowed_append]
    exact and_congr_left fun _ => and_iff_right hcomma

theorem allowed_bracketed {level : Nat} {opening closing : String} {parts : List String}
    (hopening : opening.toList.all isAllowed = true) (hclosing : closing.toList.all isAllowed = true) :
    Allowed (Json.bracketed .document level opening closing parts).toList ↔ ∀ p ∈ parts, Allowed p.toList := by
  obtain ⟨layout, hlayout, htext⟩ := toList_bracketed level opening closing parts
  have hfirst : Allowed (joined (level + 1) parts).tail ↔ Allowed (joined (level + 1) parts) := by
    cases parts with
    | nil => rfl
    | cons p ps => exact ⟨fun h => List.forall_mem_cons.2 ⟨rfl, h⟩, fun h => (List.forall_mem_cons.1 h).2⟩
  rw [htext, allowed_append, allowed_append, allowed_append, hfirst, allowed_joined]
  have houter : Allowed opening.toList ∧ Allowed closing.toList :=
    ⟨fun c hc => List.all_eq_true.1 hopening c hc, fun c hc => List.all_eq_true.1 hclosing c hc⟩
  simp [houter, allowed_layout hlayout]

theorem allowed_pair {x d : Char} (hd : isAllowed d = true) (hx : x.toNat < 32 ∨ isAllowed x = true) :
    Allowed ['\\', d] ↔ x.toNat < 32 ∨ isAllowed x = true :=
  iff_of_true (List.forall_mem_cons.2 ⟨rfl, by simpa using hd⟩) hx

theorem allowed_hexDigits {n : Nat} (hn : n < 32) : Allowed ('\\' :: 'u' :: Text.hexDigits 4 n) := by
  have hall : ∀ n < 32, ('\\' :: 'u' :: Text.hexDigits 4 n).all isAllowed = true := by decide +kernel
  exact fun c hc => List.all_eq_true.1 (hall n hn) c hc

/-- A character is written in allowed characters if it is allowed itself, or among those that are escaped. -/
theorem allowed_escapedChar (x : Char) : Allowed (Json.escapedChar x) ↔ x.toNat < 32 ∨ isAllowed x = true := by
  unfold Json.escapedChar
  split
  · next h => obtain rfl := beq_iff_eq.1 h; exact allowed_pair rfl (.inr rfl)
  split
  · next h => obtain rfl := beq_iff_eq.1 h; exact allowed_pair rfl (.inr rfl)
  split
  · next h => obtain rfl := beq_iff_eq.1 h; exact allowed_pair rfl (.inr rfl)
  split
  · next h => obtain rfl := beq_iff_eq.1 h; exact allowed_pair rfl (.inr rfl)
  split
  · next h => obtain rfl := beq_iff_eq.1 h; exact allowed_pair rfl (.inr rfl)
  split
  · next h => exact allowed_pair rfl (.inl (by rw [beq_iff_eq.1 h]; decide))
  split
  · next h => exact allowed_pair rfl (.inl (by rw [beq_iff_eq.1 h]; decide))
  split
  · next h => exact iff_of_true (allowed_hexDigits h) (.inl h)
  · next hcode => simp [Allowed, hcode]

theorem allowed_string (s : String) : Allowed (Json.string s).toList ↔ (Scalar.str s).isClean = true := by
  rw [toList_string, Scalar.isClean, List.all_eq_true]
  simp only [Bool.or_eq_true, decide_eq_true_eq]
  generalize s.toList = cs
  have hquotes : Allowed ('"' :: (escaped cs ++ ['"'])) ↔ Allowed (escaped cs) := by
    have hquote : isAllowed '"' = true := rfl
    simp [Allowed, hquote, or_imp, forall_and]
  rw [hquotes]
  clear hquotes
  induction cs with
  | nil => exact iff_of_true (List.forall_mem_nil _) (List.forall_mem_nil _)
  | cons x cs ih =>
    rw [escaped_cons, allowed_append, allowed_escapedChar, List.forall_mem_cons]
    exact and_congr_right fun _ => ih

theorem allowed_bare {s : Scalar} (hstr : ∀ t, s ≠ .str t) {text : String} (h : Json.scalar .document s = .ok text) :
    Allowed text.toList := by
  have hall : bareChars.all isAllowed = true := by decide
  exact fun c hc => List.all_eq_true.1 hall c (Lexer.Bare.mem_bareChars (bare_scalar hstr h) c hc)

mutual

/-- The text of a value is in allowed characters exactly if its texts are. -/
theorem allowed_value : ∀ (v : Value) (level : Nat) (text : String), Json.write .document level v = .ok text →
    v.isJson = true → (Allowed text.toList ↔ v.scalars.all Scalar.isClean = true)
  | .scalar s, _, text, h, _ => by
    by_cases hstr : ∃ t, s = .str t
    · obtain ⟨t, rfl⟩ := hstr
      cases h
      rw [Value.scalars, List.all_cons, List.all_nil, Bool.and_true]
      exact allowed_string t
    · have hplain : ∀ t, s ≠ .str t := fun t heq => hstr ⟨t, heq⟩
      have hclean : s.isClean = true := by
        cases s with
        | str t => exact absurd rfl (hplain t)
        | _ => rfl
      exact iff_of_true (allowed_bare hplain h) (by simp [Value.scalars, hclean])
  | .list items, level, text, h, hjson => by
    obtain ⟨parts, hparts, h⟩ := bind_eq_ok.1 h
    cases h
    rw [allowed_bracketed (by decide) (by decide)]
    exact allowed_items items (level + 1) parts hparts hjson
  | .map entries, level, text, h, hjson => by
    obtain ⟨parts, hparts, h⟩ := bind_eq_ok.1 h
    cases h
    rw [allowed_bracketed (by decide) (by decide)]
    exact allowed_entries entries (level + 1) parts hparts hjson
  | .set _, _, _, h, _ => nomatch h

theorem allowed_items : ∀ (items : List Value) (level : Nat) (parts : List String),
    Json.writeItems .document level items = .ok parts → Value.allJson items = true →
    ((∀ p ∈ parts, Allowed p.toList) ↔ (Value.scalarsOfItems items).all Scalar.isClean = true)
  | [], _, parts, h, _ => by
    cases h
    exact iff_of_true nofun rfl
  | v :: rest, level, parts, h, hjson => by
    rw [Value.allJson, Bool.and_eq_true] at hjson
    obtain ⟨first, hfirst, h⟩ := bind_eq_ok.1 h
    obtain ⟨others, hothers, h⟩ := bind_eq_ok.1 h
    cases h
    rw [List.forall_mem_cons, Value.scalarsOfItems, List.all_append, Bool.and_eq_true,
      allowed_value v level first hfirst hjson.1, allowed_items rest level others hothers hjson.2]

theorem allowed_entries : ∀ (entries : List (Scalar × Value)) (level : Nat) (parts : List String),
    Json.writeEntries .document level entries = .ok parts → Value.entriesJson entries = true →
    ((∀ p ∈ parts, Allowed p.toList) ↔ (Value.scalarsOfEntries entries).all Scalar.isClean = true)
  | [], _, parts, h, _ => by
    cases h
    exact iff_of_true nofun rfl
  | (.str key, v) :: rest, level, parts, h, hjson => by
    rw [Value.entriesJson, Bool.and_eq_true] at hjson
    obtain ⟨name, ⟨⟩, h⟩ := bind_eq_ok.1 h
    obtain ⟨body, hbody, h⟩ := bind_eq_ok.1 h
    obtain ⟨others, hothers, h⟩ := bind_eq_ok.1 h
    cases h
    have hcolon : Allowed ": ".toList := fun c hc => List.all_eq_true.1 (by decide : ": ".toList.all isAllowed = true) c hc
    have hseparator : Json.Style.document.keySeparator = ": " := rfl
    rw [List.forall_mem_cons, Value.scalarsOfEntries, List.all_cons, List.all_append, Bool.and_eq_true, Bool.and_eq_true,
      ← allowed_value v level body hbody hjson.1, allowed_entries rest level others hothers hjson.2, ← allowed_string,
      hseparator, String.toList_append, String.toList_append, allowed_append, allowed_append, and_iff_left hcolon, and_assoc]

end

/-! ## Texts of documents -/

/-- The text of a mapping is read as its tokens, unless a text in it is not allowed or has a mark. -/
theorem tokenize_document {entries : List (Scalar × Value)} (hjson : (Value.map entries).isJson = true) {text : String}
    (h : Json.render .document (.map entries) = .ok text) : tokenize text =
      if (Value.map entries).scalars.all Scalar.isClean && (Value.map entries).scalars.all Scalar.isUnmarked then
        .ok (valueTokens (.map entries) ++ [.streamEnd])
      else .error .malformed := by
  have hallowed := allowed_value _ 0 text h hjson
  obtain ⟨parts, hparts, hrender⟩ := bind_eq_ok.1 h
  have hstart : (Lexer.start text).Shows ⟨0, [], text.toList, true⟩ := ⟨rfl, rfl, nofun, rfl, rfl, rfl, fun _ => rfl⟩
  have htext : (Json.bracketed .document 0 "\x7b" "\x7d" parts).toList ++ [] = text.toList := by
    rw [List.append_nil, Except.ok.inj hrender]
  rw [tokenize]
  cases hclean : (Value.map entries).scalars.all Scalar.isClean with
  | false =>
    rw [if_neg fun hall => by rw [hallowed.1 (List.all_eq_true.1 hall)] at hclean; cases hclean]
    rfl
  | true =>
    rw [if_pos (List.all_eq_true.2 (hallowed.2 hclean))]
    cases hmarks : (Value.map entries).scalars.all Scalar.isUnmarked with
    | false =>
      have hhalts : Lexer.Halts ⟨0, [], (Json.bracketed .document 0 "\x7b" "\x7d" parts).toList ++ [], true⟩ :=
        Lexer.halts_map (Lexer.refuses_entries entries 1 parts hparts hjson hmarks)
      rw [htext] at hhalts
      rw [hhalts _ hstart _ (by rw [String.length_toList]; exact Nat.lt_succ_self _)]
      rfl
    | true =>
      have hscans : Lexer.Scans ⟨0, [], (Json.bracketed .document 0 "\x7b" "\x7d" parts).toList ++ [], true⟩ _ :=
        Lexer.scans_map (Lexer.reads_entries entries 1 parts hparts hjson hmarks)
      rw [htext] at hscans
      obtain ⟨l, n, hshows, hturns, hrun⟩ := hscans (Lexer.start text) hstart
      have hfuel : text.length + 1 = (text.length - n) + 1 + n := by
        simp only [List.length_nil, String.length_toList] at hturns
        omega
      rw [hfuel, hrun, hshows.run_end]
      simp [valueTokens]

end Yaml

end Flowline
