import Flowline.Proofs.Value.Faults
import Flowline.Proofs.Value.Flattening
import Flowline.Proofs.Value.Records

/-! # References in texts

A text is cut once into literal parts and references, and the texts of the values take the place of the references
as they are: braces in a value are not looked at. Inside a value the texts at every depth are resolved so, and
nothing else is changed. -/

namespace Flowline.Template

variable {cs path rest : List Char} {vars v w : Value} {s : String} {fault : Fault}

/-! ## Cutting texts -/

theorem all_isNotBrace (h : '\x7d' ∉ path) : ∀ c ∈ path, isNotBrace c = true :=
  fun _ hc => bne_iff_ne.2 fun heq => h (heq ▸ hc)

/-- A reference is a path that is not empty, between double braces. -/
theorem reference?_eq_some_iff : reference? cs = some (path, rest) ↔
    cs = '\x7b' :: '\x7b' :: (path ++ '\x7d' :: '\x7d' :: rest) ∧ path ≠ [] ∧ '\x7d' ∉ path := by
  constructor
  · intro h
    unfold reference? at h
    split at h
    · next body =>
      split at h
      · cases h
      · next hne =>
        split at h
        · next tail htail =>
          cases h
          have hbody := List.takeWhile_append_dropWhile (p := isNotBrace) (l := body)
          refine ⟨?_, by simpa using hne, fun hmem => ?_⟩
          · rw [← htail, hbody]
          · have hnot := List.mem_takeWhile_imp hmem
            cases hnot
        · cases h
    · cases h
  · rintro ⟨rfl, hne, hpath⟩
    have hall := all_isNotBrace hpath
    have htake : (path ++ '\x7d' :: '\x7d' :: rest).takeWhile isNotBrace = path := by
      simp [List.takeWhile_append_of_pos hall, isNotBrace]
    have hdrop : (path ++ '\x7d' :: '\x7d' :: rest).dropWhile isNotBrace = '\x7d' :: '\x7d' :: rest := by
      simp [List.dropWhile_append_of_pos hall, isNotBrace]
    simp [reference?, htake, hdrop, hne]

theorem pieces_of_reference? (h : reference? cs = some (path, rest)) : pieces cs = .reference path :: pieces rest := by
  rw [pieces]
  split
  · next heq =>
    rw [h] at heq
    cases heq
    rfl
  · next heq =>
    rw [h] at heq
    cases heq

theorem pieces_cons {c : Char} (h : reference? (c :: cs) = none) : pieces (c :: cs) = .literal c :: pieces cs := by
  rw [pieces]
  split
  · next heq =>
    rw [h] at heq
    cases heq
  · rfl

/-- No reference begins before the first opening brace. -/
theorem pieces_append {before : List Char} (h : '\x7b' ∉ before) (cs : List Char) :
    pieces (before ++ cs) = before.map .literal ++ pieces cs := by
  induction before with
  | nil => rfl
  | cons c before ih =>
    obtain ⟨hc, hbefore⟩ : '\x7b' ≠ c ∧ '\x7b' ∉ before := by simpa using h
    have hnone : reference? (c :: (before ++ cs)) = none := by
      cases hsome : reference? (c :: (before ++ cs)) with
      | none => rfl
      | some found =>
        have hcons := (reference?_eq_some_iff.1 hsome).1
        exact absurd (List.cons.inj hcons).1.symm hc
    rw [List.cons_append, pieces_cons hnone, ih hbefore]
    rfl

theorem pieces_nil : pieces [] = [] := by
  have hnone : reference? [] = none := rfl
  rw [pieces]
  split
  · next heq =>
    rw [hnone] at heq
    cases heq
  · rfl

/-- A text without braces has no references. -/
theorem pieces_of_no_brace (h : '\x7b' ∉ cs) : pieces cs = cs.map .literal := by
  have hpieces := pieces_append h []
  rwa [pieces_nil, List.append_nil, List.append_nil] at hpieces

/-- A reference stands somewhere among the characters. -/
def Refers (cs : List Char) : Prop := ∃ before path after,
  cs = before ++ '\x7b' :: '\x7b' :: (path ++ '\x7d' :: '\x7d' :: after) ∧ path ≠ [] ∧ '\x7d' ∉ path

theorem any_isReference_iff (cs : List Char) : (pieces cs).any Piece.isReference = true ↔ Refers cs := by
  induction cs using pieces.induct with
  | case1 cs path rest h =>
    obtain ⟨hcs, hne, hpath⟩ := reference?_eq_some_iff.1 h
    rw [pieces_of_reference? h]
    exact iff_of_true rfl ⟨[], path, rest, hcs, hne, hpath⟩
  | case2 h =>
    rw [pieces_nil]
    refine iff_of_false Bool.false_ne_true ?_
    rintro ⟨before, path, after, hcs, -⟩
    simp at hcs
  | case3 c rest h ih =>
    have hcons : (pieces (c :: rest)).any Piece.isReference = (pieces rest).any Piece.isReference := by
      rw [pieces_cons h]
      rfl
    rw [hcons, ih]
    constructor
    · rintro ⟨before, path, after, rfl, hpath⟩
      exact ⟨c :: before, path, after, rfl, hpath⟩
    · rintro ⟨before, path, after, hcs, hne, hpath⟩
      cases before with
      | nil =>
        rw [hcs, List.nil_append, reference?_eq_some_iff.2 ⟨rfl, hne, hpath⟩] at h
        cases h
      | cons d before =>
        obtain ⟨-, hrest⟩ := List.cons.inj hcs
        exact ⟨before, path, after, hrest, hne, hpath⟩

/-- A text without references stands for itself. -/
theorem resolveText_of_not_refers (h : ¬Refers s.toList) (vars : Value) : resolveText s vars = .ok (.str s) := by
  have hnone : (pieces s.toList).any Piece.isReference = false := by
    rw [← any_isReference_iff] at h
    simpa using h
  unfold resolveText
  simp only [hnone, Bool.not_false, if_true]

/-! ## Texts with references -/

/-- A reference and the text after it, up to the next one. -/
structure Reference where
  path : String
  after : String
  ne_nil : path.toList ≠ []
  closing_not_mem : '\x7d' ∉ path.toList
  opening_not_mem : '\x7b' ∉ after.toList

def Reference.text (r : Reference) : String := "\x7b\x7b" ++ r.path ++ "\x7d\x7d" ++ r.after

/-- A text with at least one reference. -/
structure Interpolation where
  before : String
  references : List Reference
  opening_not_mem : '\x7b' ∉ before.toList
  ne_nil : references ≠ []

namespace Interpolation

def text (t : Interpolation) : String := t.before ++ String.join (t.references.map Reference.text)

/-- The text with these texts in the place of the references. -/
def filled (t : Interpolation) (texts : List String) : String :=
  t.before ++ String.join (List.zipWith (fun text r => text ++ r.after) texts t.references)

/-- The text is one reference with blanks around it at most. -/
def IsSole (t : Interpolation) (r : Reference) : Prop :=
  t.references = [r] ∧ ∀ c ∈ t.before.toList ++ r.after.toList, Text.isBlank c = true

end Interpolation

/-- The text of the value at a path. -/
def textAt (vars : Value) (path : String) : Except Fault String := do
  (← Path.lookupText path (scope vars)).display

def Reference.pieces (r : Reference) : List Piece := .reference r.path.toList :: r.after.toList.map .literal

theorem pieces_references (rs : List Reference) :
    Template.pieces (String.join (rs.map Reference.text)).toList = rs.flatMap Reference.pieces := by
  induction rs with
  | nil => exact pieces_nil
  | cons r rs ih =>
    have htext : (String.join ((r :: rs).map Reference.text)).toList = '\x7b' :: '\x7b' :: (r.path.toList ++
        '\x7d' :: '\x7d' :: (r.after.toList ++ (String.join (rs.map Reference.text)).toList)) := by
      simp [Reference.text]
    have hreference := reference?_eq_some_iff.2 ⟨htext, r.ne_nil, r.closing_not_mem⟩
    rw [pieces_of_reference? hreference, pieces_append r.opening_not_mem, ih]
    rfl

theorem Interpolation.pieces_text (t : Interpolation) :
    Template.pieces t.text.toList = t.before.toList.map .literal ++ t.references.flatMap Reference.pieces := by
  rw [text, String.toList_append, pieces_append t.opening_not_mem, pieces_references]

theorem Interpolation.any_isReference (t : Interpolation) :
    (Template.pieces t.text.toList).any Piece.isReference = true := by
  obtain ⟨r, rs, hrs⟩ := List.exists_cons_of_ne_nil t.ne_nil
  rw [t.pieces_text, hrs]
  simp [Reference.pieces, Piece.isReference]

/-! ## A reference alone -/

theorem sole?_eq_some_iff {ps : List Piece} :
    sole? ps = some path ↔ ps.filter (fun p => !p.isBlank) = [.reference path] := by
  unfold sole?
  split
  · next other heq => rw [heq, Option.some.injEq, List.cons.injEq, Piece.reference.injEq, and_iff_left rfl]
  · next hother => exact iff_of_false nofun fun heq => hother path heq

theorem filter_literals (cs : List Char) : (cs.map Piece.literal).filter (fun p => !p.isBlank) =
    (cs.filter fun c => !Text.isBlank c).map .literal := by
  rw [List.filter_map]
  rfl

theorem filter_literals_eq_nil_iff : (cs.map Piece.literal).filter (fun p => !p.isBlank) = [] ↔
    ∀ c ∈ cs, Text.isBlank c = true := by
  simp [filter_literals, List.filter_eq_nil_iff]

theorem filter_pieces (r : Reference) : r.pieces.filter (fun p => !p.isBlank) =
    .reference r.path.toList :: (r.after.toList.map Piece.literal).filter fun p => !p.isBlank := rfl

/-- A text is taken for its value where it is one reference between blanks. -/
theorem Interpolation.sole?_eq_some_iff (t : Interpolation) :
    sole? (Template.pieces t.text.toList) = some path ↔ ∃ r, t.IsSole r ∧ r.path.toList = path := by
  rw [Template.sole?_eq_some_iff, t.pieces_text, List.filter_append]
  constructor
  · intro h
    obtain ⟨r, rs, hrs⟩ := List.exists_cons_of_ne_nil t.ne_nil
    rw [hrs, List.flatMap_cons, List.filter_append, filter_pieces] at h
    cases hbefore : (t.before.toList.map Piece.literal).filter fun p => !p.isBlank with
    | cons p ps =>
      rw [hbefore] at h
      simp at h
    | nil =>
      rw [hbefore] at h
      obtain ⟨hpath, hrest⟩ := List.cons.inj h
      obtain ⟨hafter, hrest⟩ := List.append_eq_nil_iff.1 hrest
      have hnil : rs = [] := by
        refine List.eq_nil_iff_forall_not_mem.2 fun r' hr' => ?_
        have hmem : Piece.reference r'.path.toList ∈ (rs.flatMap Reference.pieces).filter fun p => !p.isBlank :=
          List.mem_filter.2 ⟨List.mem_flatMap.2 ⟨r', hr', List.mem_cons_self⟩, rfl⟩
        simp [hrest] at hmem
      have hblank := filter_literals_eq_nil_iff.1 hbefore
      have hblank' := filter_literals_eq_nil_iff.1 hafter
      refine ⟨r, ⟨by rw [hrs, hnil], fun c hc => ?_⟩, Piece.reference.inj hpath⟩
      exact (List.mem_append.1 hc).elim (hblank c) (hblank' c)
  · rintro ⟨r, ⟨hrs, hblank⟩, rfl⟩
    obtain ⟨hbefore, hafter⟩ := List.forall_mem_append.1 hblank
    rw [hrs, List.flatMap_singleton, filter_pieces, filter_literals_eq_nil_iff.2 hbefore,
      filter_literals_eq_nil_iff.2 hafter]
    rfl

/-! ## The texts of values in a text -/

theorem fill_literals (textOf : List Char → Except Fault String) (cs : List Char) (ps : List Piece) :
    fill textOf (cs.map .literal ++ ps) = (do return cs ++ (← fill textOf ps)) := by
  induction cs with
  | nil => cases h : fill textOf ps <;> simp [h]
  | cons c cs ih =>
    rw [List.map_cons, List.cons_append, fill, ih]
    cases fill textOf ps <;> rfl

theorem fill_references (textOf : String → Except Fault String) (rs : List Reference) :
    fill (fun path => textOf (String.ofList path)) (rs.flatMap Reference.pieces) = (do
      let texts ← rs.mapM fun r => textOf r.path
      return (String.join (List.zipWith (fun text r => text ++ r.after) texts rs)).toList) := by
  induction rs with
  | nil => rfl
  | cons r rs ih =>
    rw [List.flatMap_cons, Reference.pieces, List.cons_append, fill, fill_literals, ih, List.mapM_cons,
      String.ofList_toList]
    cases textOf r.path with
    | error fault => rfl
    | ok text =>
      cases rs.mapM fun r => textOf r.path with
      | error fault => rfl
      | ok texts =>
        have hjoin : (String.join (List.zipWith (fun text r => text ++ r.after) (text :: texts) (r :: rs))).toList =
            text.toList ++ (r.after.toList ++
              (String.join (List.zipWith (fun text r => text ++ r.after) texts rs)).toList) := by simp
        exact congrArg Except.ok hjoin.symm

theorem Interpolation.resolve_of_isSole (t : Interpolation) {r : Reference} (h : t.IsSole r) (vars : Value) :
    resolve (.str t.text) vars = Path.lookupText r.path (scope vars) := by
  have hsole := t.sole?_eq_some_iff.2 ⟨r, h, rfl⟩
  unfold resolve resolveText
  simp only [t.any_isReference, Bool.not_true, Bool.false_eq_true, if_false, hsole, String.ofList_toList]

/-- Any other text with references has each of them replaced by the text of its value. -/
theorem Interpolation.resolve_of_not_isSole (t : Interpolation) (h : ∀ r, ¬t.IsSole r) (vars : Value) :
    resolve (.str t.text) vars = (do
      let texts ← t.references.mapM fun r => textAt vars r.path
      return .str (t.filled texts)) := by
  have hsole : sole? (Template.pieces t.text.toList) = none := by
    cases hsome : sole? (Template.pieces t.text.toList) with
    | none => rfl
    | some path =>
      obtain ⟨r, hr, -⟩ := t.sole?_eq_some_iff.1 hsome
      exact absurd hr (h r)
  unfold resolve resolveText
  simp only [t.any_isReference, Bool.not_true, Bool.false_eq_true, if_false, hsole]
  change (do
    let filled ← fill (fun path => textAt vars (String.ofList path)) (Template.pieces t.text.toList)
    return Value.str (String.ofList filled)) = _
  rw [t.pieces_text, fill_literals, fill_references]
  cases t.references.mapM fun r => textAt vars r.path with
  | error fault => rfl
  | ok texts =>
    have htext : String.ofList (t.before.toList ++
        (String.join (List.zipWith (fun text r => text ++ r.after) texts t.references)).toList) = t.filled texts := by
      rw [filled, ← String.toList_append, String.ofList_toList]
    exact congrArg (fun text => Except.ok (Value.str text)) htext

/-- Over variables of JSON a path has a text where it can be followed to a value that can be written. -/
theorem exists_textAt_iff (hjson : vars.isJson = true) (path : String) : (∃ text, textAt vars path = .ok text) ↔
    ∃ v, Path.lookupText path (scope vars) = .ok v ∧ v.isWritable = true := by
  have hwrites {v : Value} (hv : Path.lookupText path (scope vars) = .ok v) :=
    (Value.writes_display (Path.holds_of_lookupText Value.inherits_isJson (Value.isJson_scope hjson) hv)).iff
  constructor
  · rintro ⟨text, htext⟩
    obtain ⟨v, hv, hdisplay⟩ := bind_eq_ok.1 htext
    exact ⟨v, hv, (hwrites hv).1 ⟨text, hdisplay⟩⟩
  · rintro ⟨v, hv, hwritable⟩
    obtain ⟨text, htext⟩ := (hwrites hv).2 hwritable
    exact ⟨text, bind_eq_ok.2 ⟨v, hv, htext⟩⟩

/-- Over variables of JSON a text with references has a value where each of its paths can be followed, and what
is found there can be written, if there is more to the text than one reference. -/
theorem Interpolation.exists_resolve_iff (t : Interpolation) (hjson : vars.isJson = true) :
    (∃ w, resolve (.str t.text) vars = .ok w) ↔ ∀ r ∈ t.references,
      ∃ v, Path.lookupText r.path (scope vars) = .ok v ∧ (¬t.IsSole r → v.isWritable = true) := by
  by_cases hsole : ∃ r, t.IsSole r
  · obtain ⟨r, hr⟩ := hsole
    rw [t.resolve_of_isSole hr, hr.1]
    simp [hr]
  · have hmap : (∃ w, resolve (.str t.text) vars = .ok w) ↔
        ∃ texts, t.references.mapM (fun r => textAt vars r.path) = .ok texts := by
      rw [t.resolve_of_not_isSole (not_exists.1 hsole)]
      cases t.references.mapM fun r => textAt vars r.path with
      | error fault => exact iff_of_false nofun nofun
      | ok texts => exact iff_of_true ⟨_, rfl⟩ ⟨_, rfl⟩
    rw [hmap, exists_mapM_iff]
    refine forall₂_congr fun r _ => (exists_textAt_iff hjson r.path).trans ?_
    exact exists_congr fun v => and_congr_right fun _ => (imp_iff_right (not_exists.1 hsole r)).symm

/-! ## Values with texts in them -/

/-- Each text is replaced by what it stands for; keys, their order, the numbers of items and all that is no text
stay. -/
inductive Resolved (vars : Value) : Value → Value → Prop
  | text {s : String} {w : Value} (h : resolve (.str s) vars = .ok w) : Resolved vars (.str s) w
  | other {v : Value} (hleaf : v.isContainer = false) (hother : v.isStr = false) : Resolved vars v v
  | list {items others : List Value} (h : List.Forall₂ (Resolved vars) items others) :
    Resolved vars (.list items) (.list others)
  | map {entries others : List (Scalar × Value)} (hkeys : entries.map (·.1) = others.map (·.1))
    (h : List.Forall₂ (Resolved vars) (entries.map (·.2)) (others.map (·.2))) :
    Resolved vars (.map entries) (.map others)

/-- A container with other members. -/
def withMembers : Value → List Value → Value
  | .list _, vs => .list vs
  | .map entries, vs => .map ((entries.map (·.1)).zip vs)
  | v, _ => v

theorem resolveEntries_eq (entries : List (Scalar × Value)) : resolveEntries vars entries =
    (do return (entries.map (·.1)).zip (← resolveItems vars (entries.map (·.2)))) := by
  induction entries with
  | nil => rfl
  | cons entry rest ih =>
    rw [resolveEntries, ih, List.map_cons, List.map_cons, resolveItems]
    cases resolveDeep vars entry.2 with
    | error fault => rfl
    | ok w => cases resolveItems vars (rest.map (·.2)) <;> rfl

theorem resolveDeep_of_isContainer (h : v.isContainer = true) :
    resolveDeep vars v = (do return withMembers v (← resolveItems vars v.members)) := by
  match v with
  | .list items => rw [resolveDeep]; rfl
  | .map entries =>
    rw [resolveDeep, resolveEntries_eq]
    cases h : resolveItems vars (entries.map (·.2)) <;> simp only [Value.members, h] <;> rfl
  | .scalar _ => cases h
  | .set _ => cases h

theorem resolveDeep_of_not_isContainer (h : v.isContainer = false) : resolveDeep vars v = resolve v vars := by
  match v with
  | .scalar _ => rw [resolveDeep]
  | .set _ => simp only [resolveDeep, resolve]
  | .list _ => cases h
  | .map _ => cases h

theorem resolve_of_not_isStr (h : v.isStr = false) : resolve v vars = .ok v := by
  unfold resolve
  split
  · cases h
  · rfl

theorem exists_str_of_isStr (h : v.isStr = true) : ∃ s, v = .str s := by
  unfold Value.isStr at h
  split at h
  · exact ⟨_, rfl⟩
  · cases h

theorem resolveItems_eq_mapM (vs : List Value) : resolveItems vars vs = vs.mapM (resolveDeep vars) := by
  induction vs with
  | nil => rfl
  | cons v rest ih =>
    rw [resolveItems, List.mapM_cons, ih]

theorem withMembers_members (v : Value) : withMembers v v.members = v := by
  cases v with
  | map entries => exact congrArg Value.map (List.zip_of_prod rfl rfl).symm
  | _ => rfl

theorem forall₂_congr_of_mem {α β : Type} {R S : α → β → Prop} {xs : List α} {ys : List β}
    (h : ∀ x ∈ xs, ∀ y, R x y ↔ S x y) : List.Forall₂ R xs ys ↔ List.Forall₂ S xs ys := by
  induction xs generalizing ys with
  | nil => simp
  | cons x xs ih =>
    obtain ⟨hx, hxs⟩ := List.forall_mem_cons.1 h
    cases ys with
    | nil => simp
    | cons y ys => rw [List.forall₂_cons, List.forall₂_cons, hx, ih hxs]

/-- A container is resolved by resolving its members. -/
theorem resolved_iff_of_isContainer (h : v.isContainer = true) : Resolved vars v w ↔
    ∃ ws, List.Forall₂ (Resolved vars) v.members ws ∧ withMembers v ws = w := by
  match v with
  | .scalar _ => cases h
  | .set _ => cases h
  | .list items =>
    constructor
    · intro hw
      cases hw with
      | other hleaf => cases hleaf
      | list hitems => exact ⟨_, hitems, rfl⟩
    · rintro ⟨ws, hitems, rfl⟩
      exact .list hitems
  | .map entries =>
    constructor
    · intro hw
      cases hw with
      | other hleaf => cases hleaf
      | @map _ others hkeys hvalues =>
        exact ⟨_, hvalues, congrArg Value.map (hkeys ▸ (List.zip_of_prod rfl rfl).symm)⟩
    · rintro ⟨ws, hvalues, rfl⟩
      have hlength : (entries.map (·.1)).length = ws.length := by
        have hsame := hvalues.length_eq
        rw [Value.members, List.length_map] at hsame
        rw [List.length_map, hsame]
      refine .map (List.map_fst_zip (Nat.le_of_eq hlength)).symm ?_
      rwa [List.map_snd_zip (Nat.le_of_eq hlength.symm)]

theorem resolved_iff_of_not_isContainer (h : v.isContainer = false) : Resolved vars v w ↔ resolve v vars = .ok w := by
  constructor
  · intro hw
    cases hw with
    | text hw => exact hw
    | other _ hother => exact resolve_of_not_isStr hother
    | list => cases h
    | map => cases h
  · intro hw
    cases hstr : v.isStr with
    | false =>
      rw [resolve_of_not_isStr hstr] at hw
      cases hw
      exact .other h hstr
    | true =>
      obtain ⟨s, rfl⟩ := exists_str_of_isStr hstr
      exact .text hw

/-- Resolving a value does this, and nothing else. -/
theorem resolveDeep_eq_ok_iff : resolveDeep vars v = .ok w ↔ Resolved vars v w := by
  induction v using Value.forall_of_members generalizing w with
  | step v ih =>
    cases hv : v.isContainer with
    | false => rw [resolveDeep_of_not_isContainer hv, resolved_iff_of_not_isContainer hv]
    | true =>
      rw [resolveDeep_of_isContainer hv, resolved_iff_of_isContainer hv, bind_eq_ok]
      refine exists_congr fun ws => and_congr ?_ ⟨Except.ok.inj, congrArg Except.ok⟩
      rw [resolveItems_eq_mapM, mapM_eq_ok_iff]
      exact forall₂_congr_of_mem fun u hu x => ih u hu

/-- A value can be resolved where each text in it can be. -/
theorem exists_resolveDeep_iff : (∃ w, resolveDeep vars v = .ok w) ↔
    ∀ way s, Value.LeafAt v way (.str s) → ∃ w, resolve (.str s) vars = .ok w := by
  induction v using Value.forall_of_members with
  | step v ih =>
    cases hv : v.isContainer with
    | false =>
      rw [resolveDeep_of_not_isContainer hv]
      constructor
      · rintro ⟨w, hw⟩ way s hleaf
        obtain ⟨-, rfl⟩ := (Value.leafAt_iff_of_not_isContainer hv).1 hleaf
        exact ⟨w, hw⟩
      · intro h
        cases hstr : v.isStr with
        | false => exact ⟨v, resolve_of_not_isStr hstr⟩
        | true =>
          obtain ⟨s, rfl⟩ := exists_str_of_isStr hstr
          exact h [] s (.here hv)
    | true =>
      have hmembers : (∃ w, resolveDeep vars v = .ok w) ↔ ∀ u ∈ v.members, ∃ w, resolveDeep vars u = .ok w := by
        rw [resolveDeep_of_isContainer hv, ← exists_mapM_iff, ← resolveItems_eq_mapM]
        cases resolveItems vars v.members with
        | error fault => exact iff_of_false nofun nofun
        | ok ws => exact iff_of_true ⟨_, rfl⟩ ⟨_, rfl⟩
      rw [hmembers]
      constructor
      · intro h way s hleaf
        obtain ⟨i, u, rest, rfl, hu, hleaf⟩ := (Value.leafAt_iff_of_isContainer hv).1 hleaf
        have hmem := List.mem_of_getElem? hu
        exact (ih u hmem).1 (h u hmem) rest s hleaf
      · intro h u hu
        obtain ⟨i, hi⟩ := List.mem_iff_getElem?.1 hu
        exact (ih u hu).2 fun way s hleaf => h (i :: way) s (.inside hi hleaf)

/-- A value without references is left as it is. -/
theorem resolved_self (h : ∀ way s, Value.LeafAt v way (.str s) → ¬Refers s.toList) : Resolved vars v v := by
  induction v using Value.forall_of_members with
  | step v ih =>
    cases hv : v.isContainer with
    | false =>
      cases hstr : v.isStr with
      | false => exact .other hv hstr
      | true =>
        obtain ⟨s, rfl⟩ := exists_str_of_isStr hstr
        exact .text (resolveText_of_not_refers (h [] s (.here hv)) vars)
    | true =>
      refine (resolved_iff_of_isContainer hv).2 ⟨v.members, ?_, withMembers_members v⟩
      refine List.forall₂_same.2 fun u hu => ?_
      obtain ⟨i, hi⟩ := List.mem_iff_getElem?.1 hu
      exact ih u hu fun way s hleaf => h (i :: way) s (.inside hi hleaf)

/-! ## One pass -/

/-- A text that is one reference between blanks stands for the value at its path. In any other text each reference gives
way to the text of its value, which is not searched for references. Over variables of JSON this fails only where a path
cannot be followed, or where it leads to a whole number with too many digits to be written. A value has this done to the
texts at every depth, and is else left as it is, so that without references it comes back. -/
theorem interpolates_once (t : Interpolation) (vars v : Value) :
    (∀ r, t.IsSole r → resolve (.str t.text) vars = Path.lookupText r.path (scope vars)) ∧
    ((∀ r, ¬t.IsSole r) → resolve (.str t.text) vars = (do
      let texts ← t.references.mapM fun r => textAt vars r.path
      return .str (t.filled texts))) ∧
    (vars.isJson = true → ((∃ w, resolve (.str t.text) vars = .ok w) ↔ ∀ r ∈ t.references,
      ∃ w, Path.lookupText r.path (scope vars) = .ok w ∧ (¬t.IsSole r → w.isWritable = true))) ∧
    (∀ s : String, ¬Refers s.toList → resolve (.str s) vars = .ok (.str s)) ∧
    (∀ w, resolveDeep vars v = .ok w ↔ Resolved vars v w) ∧
    ((∃ w, resolveDeep vars v = .ok w) ↔
      ∀ way s, Value.LeafAt v way (.str s) → ∃ w, resolve (.str s) vars = .ok w) ∧
    ((∀ way s, Value.LeafAt v way (.str s) → ¬Refers s.toList) → resolveDeep vars v = .ok v) :=
  ⟨fun _ hr => t.resolve_of_isSole hr vars, fun h => t.resolve_of_not_isSole h vars, t.exists_resolve_iff,
    fun _ h => resolveText_of_not_refers h vars, fun _ => resolveDeep_eq_ok_iff, exists_resolveDeep_iff,
    fun h => resolveDeep_eq_ok_iff.2 (resolved_self h)⟩

/-- A guest whose name looks like a reference. -/
def guest : Value := .object [("name", .str "\x7b\x7bage\x7d\x7d"), ("age", .int 3)]

/-- An invitation to the guest, with a reference at each end. -/
def invitation : Interpolation where
  before := ""
  references := [⟨"name", ": ", by decide, by decide, by decide⟩, ⟨"age", "", by decide, by decide, by decide⟩]
  opening_not_mem := by decide
  ne_nil := by decide

theorem interpolates_once_guest :
    resolve (.str "\x7b\x7bname\x7d\x7d: \x7b\x7bage\x7d\x7d") guest = .ok (.str "\x7b\x7bage\x7d\x7d: 3") ∧
    resolveDeep guest (.list [.int 3, .list []]) = .ok (.list [.int 3, .list []]) := by
  obtain ⟨-, hfilled, -, -, -, -, hsame⟩ := interpolates_once invitation guest (.list [.int 3, .list []])
  have htext : invitation.text = "\x7b\x7bname\x7d\x7d: \x7b\x7bage\x7d\x7d" := by decide
  have htexts : (invitation.references.mapM fun r => textAt guest r.path) = .ok ["\x7b\x7bage\x7d\x7d", "3"] := by
    decide +kernel
  have hresult : invitation.filled ["\x7b\x7bage\x7d\x7d", "3"] = "\x7b\x7bage\x7d\x7d: 3" := by decide
  constructor
  · have htwo : ∀ r, ¬invitation.IsSole r := by
      intro r hr
      have hone : invitation.references.length = 1 := congrArg List.length hr.1
      cases hone
    have hresolve := hfilled htwo
    rw [htext, htexts] at hresolve
    rw [hresolve, ← hresult]
    rfl
  · refine hsame fun way s hleaf => ?_
    cases hleaf with
    | @inside _ u _ i _ hmember hleaf =>
      match i with
      | 0 =>
        cases hmember
        cases hleaf with
        | inside hmember => cases hmember
      | 1 =>
        cases hmember
        cases hleaf with
        | inside hmember => cases hmember
      | i + 2 => cases hmember

/-- A path that looks like an index of a list, and is none. -/
theorem reference_with_two_dashes_fails :
    resolve (.str "\x7b\x7bxs.--1\x7d\x7d") (.object [("xs", .list [.int 1])]) = .error .badValue := by
  let t : Interpolation :=
    ⟨"", [⟨"xs.--1", "", by decide, by decide, by decide⟩], by decide, by decide⟩
  have htext : t.text = "\x7b\x7bxs.--1\x7d\x7d" := by decide
  have hsole : t.IsSole ⟨"xs.--1", "", by decide, by decide, by decide⟩ := ⟨rfl, List.forall_mem_nil _⟩
  rw [← htext, t.resolve_of_isSole hsole]
  rfl

end Flowline.Template
