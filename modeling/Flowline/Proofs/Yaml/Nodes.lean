import Flowline.Proofs.Yaml.Values
import Flowline.Yaml.Node

/-! # The nodes of JSON values

The tokens of a value are read as one node (`yields_value`), unless a key in it is not known as one (`refuses_value`). So
the text of a mapping is read as its node or refused (`ofText_document`). -/

namespace Flowline.Yaml.Node

/-! ## Readers -/

/-- A reader takes some tokens off those that are left and names nothing. -/
def Yields {α : Type} (m : Reader α) (ts : List Token) (a : α) (rest : List Token) : Prop :=
  ∀ anchors handles, m.run ⟨ts, anchors, handles⟩ = .ok (a, ⟨rest, anchors, handles⟩)

namespace Yields

variable {α β : Type} {m : Reader α} {f : α → Reader β} {a : α} {b : β} {t u : Token} {ts mid rest : List Token}

theorem bind (h : Yields m ts a mid) (hf : Yields (f a) mid b rest) : Yields (m >>= f) ts b rest := by
  intro anchors handles
  rw [StateT.run_bind, h anchors handles]
  exact hf anchors handles

theorem pure (a : α) (ts : List Token) : Yields (Pure.pure a) ts a ts := fun _ _ => rfl

theorem peek (t : Token) (ts : List Token) : Yields Node.peek (t :: ts) t (t :: ts) := fun _ _ => rfl

theorem advance (t : Token) (ts : List Token) : Yields Node.advance (t :: ts) () ts := fun _ _ => rfl

theorem accept_self (t : Token) (ts : List Token) : Yields (accept t) (t :: ts) true ts := by
  refine (peek t ts).bind ?_
  rw [if_pos (beq_self_eq_true t)]
  exact (advance t ts).bind (pure true ts)

theorem accept_ne (h : u ≠ t) (ts : List Token) : Yields (accept t) (u :: ts) false (u :: ts) := by
  refine (peek u ts).bind ?_
  rw [if_neg (by simpa using h)]
  exact pure false _

theorem expect (t : Token) (ts : List Token) : Yields (Node.expect t) (t :: ts) () ts :=
  (accept_self t ts).bind (pure () ts)

theorem isNext (ends : List Token) (t : Token) (ts : List Token) :
    Yields (Node.isNext ends) (t :: ts) (ends.contains t) (t :: ts) := (peek t ts).bind (pure _ _)

end Yields

/-- A reader finds that some tokens fit nowhere. -/
def Refuses {α : Type} (m : Reader α) (ts : List Token) : Prop :=
  ∀ anchors handles, m.run ⟨ts, anchors, handles⟩ = .error .malformed

section Refuses

variable {α β : Type} {m : Reader α} {f : α → Reader β} {a : α} {t : Token} {ts mid : List Token}

theorem Refuses.bind (h : Refuses m ts) : Refuses (m >>= f) ts := by
  intro anchors handles
  rw [StateT.run_bind, h anchors handles]
  rfl

theorem Yields.refuses (h : Yields m ts a mid) (hf : Refuses (f a) mid) : Refuses (m >>= f) ts := by
  intro anchors handles
  rw [StateT.run_bind, h anchors handles]
  exact hf anchors handles

theorem refuses_expect {u : Token} (h : u ≠ t) (ts : List Token) : Refuses (Node.expect t) (u :: ts) :=
  (Yields.accept_ne h ts).refuses fun _ _ => rfl

end Refuses

/-! ## Nodes of values -/

def scalarNode : Scalar → Node
  | .str s => .scalar .str (foldedText s)
  | s => .scalar (Tag.ofPlain (plainText s)) (plainText s)

mutual

/-- The node as which the text of a value is read. -/
def ofValue : Value → Node
  | .scalar s => scalarNode s
  | .list items => .sequence .seq (ofItems items)
  | .map entries => .mapping .map (ofEntries entries)
  | .set _ => empty

def ofItems : List Value → List Node
  | [] => []
  | v :: rest => ofValue v :: ofItems rest

def ofEntries : List (Scalar × Value) → List (Node × Node)
  | [] => []
  | (k, v) :: rest => (scalarNode k, ofValue v) :: ofEntries rest

end

/-- A token that a node begins with, where JSON text is read. -/
def begins : Token → Bool
  | .scalar _ _ | .flowSequenceStart | .flowMappingStart => true
  | _ => false

variable {fuel : Nat} {inBlock loose : Bool} {t : Token} {ts rest : List Token} {node : Node}

/-- A node without tag and anchor is its content. -/
theorem yields_read (ht : begins t = true) (h : Yields (readContent fuel inBlock loose none false) (t :: ts) node rest) :
    Yields (read (fuel + 1) inBlock loose) (t :: ts) node rest := by
  have hproperties : Yields properties (t :: ts) (none, none) (t :: ts) := by
    cases t with
    | scalar | flowSequenceStart | flowMappingStart => exact fun _ _ => rfl
    | _ => cases ht
  rw [read]
  refine (Yields.peek t ts).bind ?_
  cases t with
  | scalar | flowSequenceStart | flowMappingStart =>
    refine hproperties.bind ((Yields.pure none _).bind ?_)
    exact h.bind (Yields.pure node rest)
  | _ => cases ht

theorem yields_scalar (inBlock loose : Bool) (s : Scalar) (hfuel : 2 ≤ fuel) (ts : List Token) :
    Yields (read fuel inBlock loose) (scalarToken s :: ts) (scalarNode s) ts := by
  obtain ⟨fuel, rfl⟩ : ∃ n, fuel = n + 2 := ⟨fuel - 2, by omega⟩
  have hcontent (text : String) (isPlain : Bool) : Yields (readContent (fuel + 1) inBlock loose none false)
      (.scalar text isPlain :: ts) (.scalar (scalarKind none text isPlain) text) ts := by
    rw [readContent]
    exact (Yields.peek _ ts).bind ((Yields.advance _ ts).bind (Yields.pure _ ts))
  cases s <;> exact yields_read rfl (hcontent _ _)

theorem yields_sequence {nodes : List Node} (h : Yields (readFlowSequence fuel true) ts nodes rest) :
    Yields (read (fuel + 2) inBlock loose) (.flowSequenceStart :: ts) (.sequence .seq nodes) rest := by
  refine yields_read rfl ?_
  rw [readContent]
  exact (Yields.peek _ ts).bind ((Yields.advance _ ts).bind (h.bind (Yields.pure _ rest)))

theorem yields_mapping {entries : List (Node × Node)} (h : Yields (readFlowMapping fuel true) ts entries rest) :
    Yields (read (fuel + 2) inBlock loose) (.flowMappingStart :: ts) (.mapping .map entries) rest := by
  refine yields_read rfl ?_
  rw [readContent]
  exact (Yields.peek _ ts).bind ((Yields.advance _ ts).bind (h.bind (Yields.pure _ rest)))

/-- The parts of a bracket, with a comma before each or before each but the first. -/
def separated (isFirst : Bool) (parts : List (List Token)) : List Token :=
  if isFirst then (parts.flatMap (Token.flowEntry :: ·)).tail else parts.flatMap (Token.flowEntry :: ·)

theorem separated_nil (isFirst : Bool) : separated isFirst [] = [] := by cases isFirst <;> rfl

theorem separated_cons (isFirst : Bool) (part : List Token) (parts : List (List Token)) : separated isFirst (part :: parts) =
    (if isFirst then [] else [.flowEntry]) ++ (part ++ separated false parts) := by
  cases isFirst <;> simp [separated]

theorem length_bracketedTokens (opening closing : Token) (parts : List (List Token)) :
    2 ≤ (bracketedTokens opening closing parts).length ∧
      (separated false parts).length + 1 ≤ (bracketedTokens opening closing parts).length := by
  simp only [bracketedTokens, separated, List.length_cons, List.length_append, List.length_tail, Bool.false_eq_true, if_false,
    List.length_nil]
  omega

theorem bracketedTokens_append (opening closing : Token) (parts : List (List Token)) (ts : List Token) :
    bracketedTokens opening closing parts ++ ts = opening :: (separated true parts ++ closing :: ts) := by
  simp [bracketedTokens, separated]

theorem ne_of_begins (ht : begins t = true) : t ≠ .key ∧ t ≠ .value ∧ t ≠ .flowEntry ∧ t ≠ .flowSequenceEnd ∧
    t ≠ .flowMappingEnd := by
  refine ⟨?_, ?_, ?_, ?_, ?_⟩ <;>
  · rintro rfl
    cases ht

variable {mid : List Token} {isFirst : Bool} {nodes : List Node} {key value : Node} {entries : List (Node × Node)}

theorem yields_items_nil (isFirst : Bool) (ts : List Token) :
    Yields (readFlowSequence (fuel + 1) isFirst) (.flowSequenceEnd :: ts) [] ts := by
  rw [readFlowSequence]
  exact (Yields.accept_self _ ts).bind (Yields.pure [] ts)

theorem yields_items_cons (ht : begins t = true) (hitem : Yields (read fuel false false) (t :: ts) node mid)
    (hrest : Yields (readFlowSequence fuel false) mid nodes rest) :
    Yields (readFlowSequence (fuel + 1) isFirst) ((if isFirst then [] else [.flowEntry]) ++ t :: ts) (node :: nodes) rest := by
  obtain ⟨hkey, -, -, hend, -⟩ := ne_of_begins ht
  rw [readFlowSequence]
  cases isFirst with
  | true =>
    refine (Yields.accept_ne hend ts).bind ?_
    refine (Yields.accept_ne hkey ts).bind ((Yields.accept_ne hend ts).bind ?_)
    exact hitem.bind (hrest.bind (Yields.pure _ rest))
  | false =>
    refine (Yields.accept_ne (by decide) _).bind ((Yields.expect _ _).bind ?_)
    refine (Yields.accept_ne hkey ts).bind ((Yields.accept_ne hend ts).bind ?_)
    exact hitem.bind (hrest.bind (Yields.pure _ rest))

theorem yields_entries_nil (isFirst : Bool) (ts : List Token) :
    Yields (readFlowMapping (fuel + 1) isFirst) (.flowMappingEnd :: ts) [] ts := by
  rw [readFlowMapping]
  exact (Yields.accept_self _ ts).bind (Yields.pure [] ts)

/-- Where a node must not be absent, it is read. -/
theorem yields_readUnless (ends : List Token) (ht : ends.contains t = false)
    (h : Yields (read fuel inBlock loose) (t :: ts) node rest) :
    Yields (readUnless (fuel + 1) inBlock loose ends) (t :: ts) node rest := by
  rw [readUnless]
  refine (Yields.isNext ends t ts).bind ?_
  rw [ht]
  exact h

theorem yields_entries_cons {s : String} {isPlain : Bool} (ht : begins t = true)
    (hkey : Yields (read fuel false false) (.scalar s isPlain :: .value :: t :: ts) key (.value :: t :: ts))
    (hvalue : Yields (read fuel false false) (t :: ts) value mid)
    (hrest : Yields (readFlowMapping (fuel + 1) false) mid entries rest) :
    Yields (readFlowMapping (fuel + 2) isFirst)
      ((if isFirst then [] else [.flowEntry]) ++ .key :: .scalar s isPlain :: .value :: t :: ts) ((key, value) :: entries)
      rest := by
  obtain ⟨-, -, hcomma, -, hend⟩ := ne_of_begins ht
  have hread := yields_readUnless [.flowEntry, .flowMappingEnd] (by simp [hcomma, hend]) hvalue
  have hname := yields_readUnless [.value, .flowEntry, .flowMappingEnd] rfl hkey
  rw [readFlowMapping]
  cases isFirst with
  | true =>
    refine (Yields.accept_ne (by decide) _).bind ((Yields.accept_self _ _).bind (hname.bind ?_))
    refine (Yields.accept_self _ _).bind (hread.bind ?_)
    exact hrest.bind (Yields.pure _ rest)
  | false =>
    refine (Yields.accept_ne (by decide) _).bind ((Yields.expect _ _).bind ?_)
    refine (Yields.accept_self _ _).bind (hname.bind ((Yields.accept_self _ _).bind (hread.bind ?_)))
    exact hrest.bind (Yields.pure _ rest)

theorem exists_begins {v : Value} (h : v.isJson = true) : ∃ t ts, valueTokens v = t :: ts ∧ begins t = true := by
  cases v with
  | scalar s => cases s <;> exact ⟨_, [], rfl, rfl⟩
  | list items => exact ⟨_, _, rfl, rfl⟩
  | map entries => exact ⟨_, _, rfl, rfl⟩
  | set items => cases h

/-! ## Reading nodes -/

mutual

/-- The tokens of a value are read as its node, if its keys are known as keys. Each token takes at most four calls. -/
theorem yields_value : ∀ (v : Value) (fuel : Nat), v.isJson = true → v.keys.all Scalar.isSimpleKey = true →
    4 * (valueTokens v).length ≤ fuel →
    ∀ inBlock loose ts, Yields (read fuel inBlock loose) (valueTokens v ++ ts) (ofValue v) ts
  | .scalar s, fuel, _, _, hfuel, _, _, ts => yields_scalar _ _ s (by simp [valueTokens] at hfuel; omega) ts
  | .list items, fuel, hjson, hkeys, hfuel, _, _, ts => by
    obtain ⟨hleast, hlength⟩ := length_bracketedTokens .flowSequenceStart .flowSequenceEnd (itemTokens items)
    rw [valueTokens] at hfuel ⊢
    obtain ⟨fuel, rfl⟩ : ∃ n, fuel = n + 2 := ⟨fuel - 2, by omega⟩
    rw [bracketedTokens_append]
    exact yields_sequence (yields_items items fuel true hjson hkeys (by omega) ts)
  | .map entries, fuel, hjson, hkeys, hfuel, _, _, ts => by
    obtain ⟨hleast, hlength⟩ := length_bracketedTokens .flowMappingStart .flowMappingEnd (entryTokens entries)
    rw [valueTokens] at hfuel ⊢
    obtain ⟨fuel, rfl⟩ : ∃ n, fuel = n + 2 := ⟨fuel - 2, by omega⟩
    rw [bracketedTokens_append]
    exact yields_mapping (yields_entries entries fuel true hjson hkeys (by omega) ts)
  | .set _, _, hjson, _, _, _, _, _ => nomatch hjson

theorem yields_items : ∀ (items : List Value) (fuel : Nat) (isFirst : Bool), Value.allJson items = true →
    (Value.keysOfItems items).all Scalar.isSimpleKey = true →
    4 * (separated false (itemTokens items)).length < fuel →
    ∀ ts, Yields (readFlowSequence fuel isFirst) (separated isFirst (itemTokens items) ++ .flowSequenceEnd :: ts)
      (ofItems items) ts
  | [], fuel, isFirst, _, _, hfuel, ts => by
    obtain ⟨fuel, rfl⟩ : ∃ n, fuel = n + 1 := ⟨fuel - 1, by omega⟩
    rw [itemTokens, separated_nil]
    exact yields_items_nil isFirst ts
  | v :: rest, fuel, isFirst, hjson, hkeys, hfuel, ts => by
    rw [Value.allJson, Bool.and_eq_true] at hjson
    rw [Value.keysOfItems, List.all_append, Bool.and_eq_true] at hkeys
    obtain ⟨t, more, hfirst, ht⟩ := exists_begins hjson.1
    rw [itemTokens, separated_cons, List.length_append, List.length_append] at hfuel
    obtain ⟨fuel, rfl⟩ : ∃ n, fuel = n + 1 := ⟨fuel - 1, by omega⟩
    have hitem := yields_value v fuel hjson.1 hkeys.1 (by simp at hfuel; omega) false false
      (separated false (itemTokens rest) ++ .flowSequenceEnd :: ts)
    have hrest := yields_items rest fuel false hjson.2 hkeys.2 (by simp at hfuel; omega) ts
    rw [itemTokens, separated_cons, List.append_assoc, List.append_assoc]
    rw [hfirst] at hitem ⊢
    exact yields_items_cons ht hitem hrest

theorem yields_entries : ∀ (entries : List (Scalar × Value)) (fuel : Nat) (isFirst : Bool),
    Value.entriesJson entries = true → (Value.keysOfEntries entries).all Scalar.isSimpleKey = true →
    4 * (separated false (entryTokens entries)).length < fuel →
    ∀ ts, Yields (readFlowMapping fuel isFirst) (separated isFirst (entryTokens entries) ++ .flowMappingEnd :: ts)
      (ofEntries entries) ts
  | [], fuel, isFirst, _, _, hfuel, ts => by
    obtain ⟨fuel, rfl⟩ : ∃ n, fuel = n + 1 := ⟨fuel - 1, by omega⟩
    rw [entryTokens, separated_nil]
    exact yields_entries_nil isFirst ts
  | (.str k, v) :: rest, fuel, isFirst, hjson, hkeys, hfuel, ts => by
    rw [Value.entriesJson, Bool.and_eq_true] at hjson
    rw [Value.keysOfEntries, List.all_cons, List.all_append, Bool.and_eq_true, Bool.and_eq_true] at hkeys
    obtain ⟨t, more, hfirst, ht⟩ := exists_begins hjson.1
    rw [entryTokens, if_pos hkeys.1, separated_cons, List.length_append, List.length_append] at hfuel
    obtain ⟨fuel, rfl⟩ : ∃ n, fuel = n + 2 := ⟨fuel - 2, by simp at hfuel; omega⟩
    have hvalue := yields_value v fuel hjson.1 hkeys.2.1 (by simp at hfuel; omega) false false
      (separated false (entryTokens rest) ++ .flowMappingEnd :: ts)
    have hrest := yields_entries rest (fuel + 1) false hjson.2 hkeys.2.2 (by simp at hfuel; omega) ts
    have hless : 2 ≤ fuel := by
      simp at hfuel
      omega
    have hkey := yields_scalar false false (.str k) hless
      (.value :: (valueTokens v ++ (separated false (entryTokens rest) ++ .flowMappingEnd :: ts)))
    rw [entryTokens, if_pos hkeys.1, separated_cons, List.append_assoc, List.append_assoc]
    simp only [List.cons_append, List.nil_append]
    rw [hfirst] at hvalue hkey ⊢
    exact yields_entries_cons ht hkey hvalue hrest

end

/-! ## Keys that are not known as keys -/

/-- A node without tag and anchor is refused with its content. -/
theorem refuses_read (ht : begins t = true) (h : Refuses (readContent fuel inBlock loose none false) (t :: ts)) :
    Refuses (read (fuel + 1) inBlock loose) (t :: ts) := by
  have hproperties : Yields properties (t :: ts) (none, none) (t :: ts) := by
    cases t with
    | scalar | flowSequenceStart | flowMappingStart => exact fun _ _ => rfl
    | _ => cases ht
  rw [read]
  refine (Yields.peek t ts).refuses ?_
  cases t with
  | scalar | flowSequenceStart | flowMappingStart =>
    exact hproperties.refuses ((Yields.pure none _).refuses h.bind)
  | _ => cases ht

theorem refuses_sequence (h : Refuses (readFlowSequence fuel true) ts) :
    Refuses (read (fuel + 2) inBlock loose) (.flowSequenceStart :: ts) := by
  refine refuses_read rfl ?_
  rw [readContent]
  exact (Yields.peek _ ts).refuses ((Yields.advance _ ts).refuses h.bind)

theorem refuses_mapping (h : Refuses (readFlowMapping fuel true) ts) :
    Refuses (read (fuel + 2) inBlock loose) (.flowMappingStart :: ts) := by
  refine refuses_read rfl ?_
  rw [readContent]
  exact (Yields.peek _ ts).refuses ((Yields.advance _ ts).refuses h.bind)

theorem refuses_items_cons (ht : begins t = true) (h : Refuses (read fuel false false) (t :: ts) ∨
      ∃ node mid, Yields (read fuel false false) (t :: ts) node mid ∧ Refuses (readFlowSequence fuel false) mid) :
    Refuses (readFlowSequence (fuel + 1) isFirst) ((if isFirst then [] else [.flowEntry]) ++ t :: ts) := by
  obtain ⟨hkey, -, -, hend, -⟩ := ne_of_begins ht
  have hitem : Refuses (do
      let item ← read fuel false false
      return item :: (← readFlowSequence fuel false)) (t :: ts) := by
    obtain hitem | ⟨node, mid, hitem, hrest⟩ := h
    · exact hitem.bind
    · exact hitem.refuses hrest.bind
  rw [readFlowSequence]
  cases isFirst with
  | true =>
    refine (Yields.accept_ne hend ts).refuses ?_
    exact (Yields.accept_ne hkey ts).refuses ((Yields.accept_ne hend ts).refuses hitem)
  | false =>
    refine (Yields.accept_ne (by decide) _).refuses ((Yields.expect _ _).refuses ?_)
    exact (Yields.accept_ne hkey ts).refuses ((Yields.accept_ne hend ts).refuses hitem)

theorem refuses_readUnless {ends : List Token} (ht : ends.contains t = false)
    (h : Refuses (read fuel inBlock loose) (t :: ts)) : Refuses (readUnless (fuel + 1) inBlock loose ends) (t :: ts) := by
  rw [readUnless]
  refine (Yields.isNext ends t ts).refuses ?_
  rw [ht]
  exact h

theorem refuses_entries_cons {s : String} {isPlain : Bool} (ht : begins t = true)
    (hkey : Yields (read fuel false false) (.scalar s isPlain :: .value :: t :: ts) key (.value :: t :: ts))
    (h : Refuses (read fuel false false) (t :: ts) ∨
      ∃ value mid, Yields (read fuel false false) (t :: ts) value mid ∧ Refuses (readFlowMapping (fuel + 1) false) mid) :
    Refuses (readFlowMapping (fuel + 2) isFirst)
      ((if isFirst then [] else [.flowEntry]) ++ .key :: .scalar s isPlain :: .value :: t :: ts) := by
  obtain ⟨-, -, hcomma, -, hend⟩ := ne_of_begins ht
  have hname := yields_readUnless [.value, .flowEntry, .flowMappingEnd] rfl hkey
  have hnext : [Token.flowEntry, .flowMappingEnd].contains t = false := by simp [hcomma, hend]
  have hentry : Refuses (do
      let value ← readUnless (fuel + 1) false false [.flowEntry, .flowMappingEnd]
      return (key, value) :: (← readFlowMapping (fuel + 1) false)) (t :: ts) := by
    obtain hvalue | ⟨value, mid, hvalue, hrest⟩ := h
    · exact (refuses_readUnless hnext hvalue).bind
    · exact (yields_readUnless _ hnext hvalue).refuses hrest.bind
  rw [readFlowMapping]
  cases isFirst with
  | true =>
    refine (Yields.accept_ne (by decide) _).refuses ((Yields.accept_self _ _).refuses (hname.refuses ?_))
    exact (Yields.accept_self _ _).refuses hentry
  | false =>
    refine (Yields.accept_ne (by decide) _).refuses ((Yields.expect _ _).refuses ?_)
    exact (Yields.accept_self _ _).refuses (hname.refuses ((Yields.accept_self _ _).refuses hentry))

/-- A text that is not known as a key is an entry of its own, behind which no colon may stand. -/
theorem refuses_entries_colon {s : String} {isPlain : Bool}
    (hkey : Yields (read (fuel + 1) false false) (.scalar s isPlain :: .value :: ts) key (.value :: ts)) :
    Refuses (readFlowMapping (fuel + 2) isFirst)
      ((if isFirst then [] else [.flowEntry]) ++ .scalar s isPlain :: .value :: ts) := by
  have hcolon : Refuses (readFlowMapping (fuel + 1) false) (.value :: ts) := by
    rw [readFlowMapping]
    exact (Yields.accept_ne (by decide) ts).refuses (refuses_expect (by decide) ts).bind
  have hentry : Refuses (do
      let key ← read (fuel + 1) false false
      return (key, empty) :: (← readFlowMapping (fuel + 1) false)) (.scalar s isPlain :: .value :: ts) :=
    hkey.refuses hcolon.bind
  have hends : Token.scalar s isPlain ≠ .flowMappingEnd := nofun
  have hname : Token.scalar s isPlain ≠ .key := nofun
  rw [readFlowMapping]
  cases isFirst with
  | true =>
    refine (Yields.accept_ne hends _).refuses ?_
    exact (Yields.accept_ne hname _).refuses ((Yields.accept_ne hends _).refuses hentry)
  | false =>
    refine (Yields.accept_ne (by decide) _).refuses ((Yields.expect _ _).refuses ?_)
    exact (Yields.accept_ne hname _).refuses ((Yields.accept_ne hends _).refuses hentry)

mutual

/-- The tokens of a value with a key that is not known as one are no node. -/
theorem refuses_value : ∀ (v : Value) (fuel : Nat), v.isJson = true → v.keys.all Scalar.isSimpleKey = false →
    4 * (valueTokens v).length ≤ fuel → ∀ inBlock loose ts, Refuses (read fuel inBlock loose) (valueTokens v ++ ts)
  | .scalar _, _, _, hkeys, _, _, _, _ => nomatch hkeys
  | .list items, fuel, hjson, hkeys, hfuel, _, _, ts => by
    obtain ⟨hleast, hlength⟩ := length_bracketedTokens .flowSequenceStart .flowSequenceEnd (itemTokens items)
    rw [valueTokens] at hfuel ⊢
    obtain ⟨fuel, rfl⟩ : ∃ n, fuel = n + 2 := ⟨fuel - 2, by omega⟩
    rw [bracketedTokens_append]
    exact refuses_sequence (refuses_items items fuel true hjson hkeys (by omega) ts)
  | .map entries, fuel, hjson, hkeys, hfuel, _, _, ts => by
    obtain ⟨hleast, hlength⟩ := length_bracketedTokens .flowMappingStart .flowMappingEnd (entryTokens entries)
    rw [valueTokens] at hfuel ⊢
    obtain ⟨fuel, rfl⟩ : ∃ n, fuel = n + 2 := ⟨fuel - 2, by omega⟩
    rw [bracketedTokens_append]
    exact refuses_mapping (refuses_entries entries fuel true hjson hkeys (by omega) ts)
  | .set _, _, hjson, _, _, _, _, _ => nomatch hjson

theorem refuses_items : ∀ (items : List Value) (fuel : Nat) (isFirst : Bool), Value.allJson items = true →
    (Value.keysOfItems items).all Scalar.isSimpleKey = false →
    4 * (separated false (itemTokens items)).length < fuel →
    ∀ ts, Refuses (readFlowSequence fuel isFirst) (separated isFirst (itemTokens items) ++ .flowSequenceEnd :: ts)
  | [], _, _, _, hkeys, _, _ => nomatch hkeys
  | v :: rest, fuel, isFirst, hjson, hkeys, hfuel, ts => by
    rw [Value.allJson, Bool.and_eq_true] at hjson
    rw [Value.keysOfItems, List.all_append, Bool.and_eq_false_iff] at hkeys
    obtain ⟨t, more, hfirst, ht⟩ := exists_begins hjson.1
    rw [itemTokens, separated_cons, List.length_append, List.length_append] at hfuel
    obtain ⟨fuel, rfl⟩ : ∃ n, fuel = n + 1 := ⟨fuel - 1, by omega⟩
    have hvalue := by simp at hfuel; exact (by omega : 4 * (valueTokens v).length ≤ fuel)
    have hothers := by simp at hfuel; exact (by omega : 4 * (separated false (itemTokens rest)).length < fuel)
    have hparts : Refuses (read fuel false false) (valueTokens v ++ (separated false (itemTokens rest) ++ .flowSequenceEnd :: ts)) ∨
        ∃ node mid, Yields (read fuel false false) (valueTokens v ++ (separated false (itemTokens rest) ++ .flowSequenceEnd :: ts))
          node mid ∧ Refuses (readFlowSequence fuel false) mid := by
      cases hv : v.keys.all Scalar.isSimpleKey with
      | false => exact .inl (refuses_value v fuel hjson.1 hv hvalue false false _)
      | true =>
        have hrest := hkeys.resolve_left fun hfalse => nomatch hv.symm.trans hfalse
        exact .inr ⟨_, _, yields_value v fuel hjson.1 hv hvalue false false _,
          refuses_items rest fuel false hjson.2 hrest hothers ts⟩
    rw [itemTokens, separated_cons, List.append_assoc, List.append_assoc]
    rw [hfirst] at hparts ⊢
    exact refuses_items_cons ht hparts

theorem refuses_entries : ∀ (entries : List (Scalar × Value)) (fuel : Nat) (isFirst : Bool),
    Value.entriesJson entries = true → (Value.keysOfEntries entries).all Scalar.isSimpleKey = false →
    4 * (separated false (entryTokens entries)).length < fuel →
    ∀ ts, Refuses (readFlowMapping fuel isFirst) (separated isFirst (entryTokens entries) ++ .flowMappingEnd :: ts)
  | [], _, _, _, hkeys, _, _ => nomatch hkeys
  | (.str k, v) :: rest, fuel, isFirst, hjson, hkeys, hfuel, ts => by
    rw [Value.entriesJson, Bool.and_eq_true] at hjson
    rw [Value.keysOfEntries, List.all_cons, List.all_append] at hkeys
    obtain ⟨t, more, hfirst, ht⟩ := exists_begins hjson.1
    rw [entryTokens, separated_cons, List.length_append, List.length_append] at hfuel
    have hsize : 4 * (valueTokens v).length + 4 * (separated false (entryTokens rest)).length + 4 < fuel := by
      simp at hfuel
      omega
    obtain ⟨fuel, rfl⟩ : ∃ n, fuel = n + 2 := ⟨fuel - 2, by omega⟩
    rw [entryTokens, separated_cons, List.append_assoc, List.append_assoc]
    cases hk : (Scalar.str k).isSimpleKey with
    | false =>
      have hless : 2 ≤ fuel + 1 := by omega
      have hkey := yields_scalar false false (.str k) hless
        (.value :: (valueTokens v ++ (separated false (entryTokens rest) ++ .flowMappingEnd :: ts)))
      exact refuses_entries_colon hkey
    | true =>
      rw [hk, Bool.true_and, Bool.and_eq_false_iff] at hkeys
      have hless : 2 ≤ fuel := by omega
      have hkey := yields_scalar false false (.str k) hless
        (.value :: (valueTokens v ++ (separated false (entryTokens rest) ++ .flowMappingEnd :: ts)))
      have hparts : Refuses (read fuel false false)
            (valueTokens v ++ (separated false (entryTokens rest) ++ .flowMappingEnd :: ts)) ∨
          ∃ value mid, Yields (read fuel false false)
            (valueTokens v ++ (separated false (entryTokens rest) ++ .flowMappingEnd :: ts)) value mid ∧
              Refuses (readFlowMapping (fuel + 1) false) mid := by
        cases hv : v.keys.all Scalar.isSimpleKey with
        | false => exact .inl (refuses_value v fuel hjson.1 hv (by omega) false false _)
        | true =>
          have hrest := hkeys.resolve_left fun hfalse => nomatch hv.symm.trans hfalse
          exact .inr ⟨_, _, yields_value v fuel hjson.1 hv (by omega) false false _,
            refuses_entries rest (fuel + 1) false hjson.2 hrest (by omega) ts⟩
      rw [if_pos rfl]
      simp only [List.cons_append, List.nil_append]
      rw [hfirst] at hparts hkey ⊢
      exact refuses_entries_cons ht hkey hparts

end

/-! ## Documents -/

/-- The text of a mapping is read as the node of the mapping, or refused. -/
theorem ofText_document {entries : List (Scalar × Value)} (hjson : (Value.map entries).isJson = true) {text : String}
    (h : Json.render .document (.map entries) = .ok text) : ofText text =
      if (Value.map entries).isReadable then .ok (some (ofValue (.map entries))) else .error .malformed := by
  rw [ofText, tokenize_document hjson h, Value.isReadable]
  generalize ((Value.map entries).scalars.all Scalar.isClean && (Value.map entries).scalars.all Scalar.isUnmarked) = isClear
  cases isClear with
  | false => rfl
  | true =>
    generalize hfuel : 4 * (valueTokens (.map entries) ++ [Token.streamEnd]).length + 8 = fuel
    have hsize : 4 * (valueTokens (.map entries)).length ≤ fuel := by
      rw [← hfuel, List.length_append]
      omega
    simp only [if_true, bind, Except.bind, Bool.true_and, hfuel]
    cases hkeys : (Value.map entries).keys.all Scalar.isSimpleKey with
    | false =>
      have hread := refuses_value (.map entries) fuel hjson hkeys hsize true false [.streamEnd]
      have hdocument : Refuses (readDocument fuel) (valueTokens (.map entries) ++ [.streamEnd]) :=
        (Yields.peek .flowMappingStart _).refuses hread.bind
      rw [hdocument]
      rfl
    | true =>
      have hread := yields_value (.map entries) fuel hjson hkeys hsize true false [.streamEnd]
      have hends : Yields (passEnds fuel) [.streamEnd] () [.streamEnd] := by
        cases fuel with
        | zero => exact .pure () _
        | succ fuel => exact (Yields.accept_ne (by decide) []).bind (.pure () _)
      have hdocument : Yields (readDocument fuel) (valueTokens (.map entries) ++ [.streamEnd])
          (some (ofValue (.map entries))) [.streamEnd] := by
        refine (Yields.peek .flowMappingStart _).bind (hread.bind (hends.bind ?_))
        exact (Yields.peek .streamEnd []).bind (Yields.pure _ _)
      rw [hdocument]
      rfl

end Flowline.Yaml.Node
