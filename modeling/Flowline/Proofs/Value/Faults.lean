import Flowline.Proofs.Number.Rounded
import Flowline.Proofs.Number.Spelling
import Flowline.Proofs.Value.Records
import Flowline.Template

/-! # Faults of values

Which faults the lookup of a path, the reading of a number and the text of a value can have. The values of
contexts are those of JSON: such a value has a text unless a whole number in it has too many digits
(`writes_write`), and what a path names in one is one. -/

namespace Flowline

/-- A computation has a result or one of some faults. -/
def FailsOnly {α : Type} (allowed : Fault → Prop) (r : Except Fault α) : Prop :=
  ∀ fault, r = .error fault → allowed fault

namespace FailsOnly

variable {α β : Type} {allowed wider : Fault → Prop} {r : Except Fault α} {f : α → Except Fault β} {fault : Fault}

theorem ok (a : α) : FailsOnly allowed (.ok a) := nofun

theorem error (h : allowed fault) : FailsOnly allowed (.error fault : Except Fault α) := by
  intro other hother
  cases hother
  exact h

theorem bind (h : FailsOnly allowed r) (hf : ∀ a, r = .ok a → FailsOnly allowed (f a)) :
    FailsOnly allowed (r >>= f) := by
  cases r with
  | ok a => exact hf a rfl
  | error fault => exact error (h fault rfl)

theorem map (h : FailsOnly allowed r) (g : α → β) : FailsOnly allowed (do return g (← r)) :=
  h.bind fun a _ => ok (g a)

theorem mono (h : FailsOnly allowed r) (hwider : ∀ fault, allowed fault → wider fault) : FailsOnly wider r :=
  fun fault hfault => hwider fault (h fault hfault)

theorem exists_ok (h : FailsOnly (fun _ => False) r) : ∃ a, r = .ok a := by
  cases r with
  | ok a => exact ⟨a, rfl⟩
  | error fault => exact (h fault rfl).elim

end FailsOnly

/-- The faults of reading numbers and of calculations. -/
inductive Fault.OfNumbers : Fault → Prop
  | expression (cause : ExpressionFault) : OfNumbers (.expression cause)
  | badValue : OfNumbers .badValue
  | overflow : OfNumbers .overflow

/-- A computation has a result where all that it writes can be written, and fails for a bad value where
something cannot. -/
def Writes {α : Type} (writable : Bool) (r : Except Fault α) : Prop :=
  match writable with
  | true => ∃ a, r = .ok a
  | false => r = .error .badValue

namespace Writes

variable {α β : Type} {writable more : Bool} {r : Except Fault α} {f : α → Except Fault β}

theorem ok (a : α) : Writes true (.ok a) := ⟨a, rfl⟩

theorem bind (h : Writes writable r) (hf : ∀ a, r = .ok a → Writes more (f a)) : Writes (writable && more) (r >>= f) := by
  cases writable with
  | true =>
    obtain ⟨a, rfl⟩ := h
    exact hf a rfl
  | false =>
    obtain rfl : r = .error .badValue := h
    exact rfl

theorem map (h : Writes writable r) (g : α → β) : Writes writable (do return g (← r)) := by
  have hmap := h.bind (f := fun a => pure (g a)) fun a _ => ok (g a)
  rwa [Bool.and_true] at hmap

theorem iff (h : Writes writable r) : (∃ a, r = .ok a) ↔ writable = true := by
  cases writable with
  | true => exact iff_of_true h rfl
  | false =>
    obtain rfl : r = .error .badValue := h
    exact iff_of_false nofun nofun

theorem fails (h : Writes writable r) : FailsOnly (· = .badValue) r := by
  cases writable with
  | true =>
    obtain ⟨a, rfl⟩ := h
    exact .ok a
  | false =>
    obtain rfl : r = .error .badValue := h
    exact .error rfl

end Writes

/-- The faults of references in texts: an index that is no number or a number that is too long, and a value
without a text. -/
inductive Fault.OfReferences : Fault → Prop
  | badValue : OfReferences .badValue
  | wrongType : OfReferences .wrongType

/-! ## Values of JSON -/

/-- A scalar that JSON has. -/
def Scalar.isJson : Scalar → Bool
  | .date _ | .moment _ | .bytes _ => false
  | _ => true

namespace Value

mutual

/-- A value that JSON has: the keys of its mappings are texts. -/
def isJson : Value → Bool
  | .scalar s => s.isJson
  | .list items => allJson items
  | .map entries => entriesJson entries
  | .set _ => false

def allJson : List Value → Bool
  | [] => true
  | v :: rest => v.isJson && allJson rest

def entriesJson : List (Scalar × Value) → Bool
  | [] => true
  | (.str _, v) :: rest => v.isJson && entriesJson rest
  | _ :: _ => false

end

theorem isJson_of_mem {items : List Value} (h : allJson items = true) {v : Value} (hv : v ∈ items) :
    v.isJson = true := by
  induction items with
  | nil => cases hv
  | cons w rest ih =>
    rw [allJson, Bool.and_eq_true] at h
    rcases List.mem_cons.1 hv with rfl | hv
    · exact h.1
    · exact ih h.2 hv

theorem isJson_of_mem_entries {entries : List (Scalar × Value)} (h : entriesJson entries = true) {p : Scalar × Value}
    (hp : p ∈ entries) : p.2.isJson = true := by
  induction entries with
  | nil => cases hp
  | cons q rest ih =>
    obtain ⟨k, v⟩ := q
    cases k with
    | str key =>
      rw [entriesJson, Bool.and_eq_true] at h
      rcases List.mem_cons.1 hp with rfl | hp
      · exact h.1
      · exact ih h.2 hp
    | _ => simp [entriesJson] at h

/-- A property that a value has together with all its parts. Null stands for a part that is missing. -/
structure Inherits (P : Value → Prop) : Prop where
  null : P .null
  item : ∀ {items v}, P (.list items) → v ∈ items → P v
  entry : ∀ {entries} {p : Scalar × Value}, P (.map entries) → p ∈ entries → P p.2

theorem inherits_isJson : Inherits fun v => v.isJson = true where
  null := rfl
  item h hv := isJson_of_mem h hv
  entry h hp := isJson_of_mem_entries h hp

theorem inherits_isWritable : Inherits fun v => v.isWritable = true where
  null := rfl
  item {items v} h hv := by
    rw [isWritable] at h
    induction items with
    | nil => cases hv
    | cons w rest ih =>
      rw [areWritable, Bool.and_eq_true] at h
      rcases List.mem_cons.1 hv with rfl | hv
      · exact h.1
      · exact ih h.2 hv
  entry {entries p} h hp := by
    rw [isWritable] at h
    induction entries with
    | nil => cases hp
    | cons q rest ih =>
      rw [areEntriesWritable, Bool.and_eq_true, Bool.and_eq_true] at h
      rcases List.mem_cons.1 hp with rfl | hp
      · exact h.1.2
      · exact ih h.2 hp

theorem writes_written (v : Value) : Writes v.isWritable v.written := by
  unfold written
  cases v.isWritable with
  | true => exact .ok _
  | false => rfl

theorem writes_shown (v : Value) : Writes v.isWritable v.shown := by
  unfold shown
  cases v.isWritable with
  | true => exact .ok _
  | false => rfl

section Write
variable (style : Json.Style)

mutual

/-- A value of JSON has a text in any style of JSON, unless a number in it is too long. -/
theorem writes_write : ∀ (v : Value) (level : Nat), v.isJson = true → Writes v.isWritable (Json.write style level v)
  | .scalar s, level, h => by
    cases s with
    | date | moment | bytes => cases h
    | int n => exact writes_written (.int n)
    | _ => exact .ok _
  | .list items, level, h => by
    rw [Json.write, isWritable]
    exact (writes_writeItems items (level + 1) h).map _
  | .map entries, level, h => by
    rw [Json.write, isWritable]
    exact (writes_writeEntries entries (level + 1) h).map _
  | .set items, level, h => nomatch h

theorem writes_writeItems : ∀ (items : List Value) (level : Nat), allJson items = true →
    Writes (areWritable items) (Json.writeItems style level items)
  | [], level, h => .ok []
  | v :: rest, level, h => by
    rw [allJson, Bool.and_eq_true] at h
    rw [Json.writeItems, areWritable]
    exact (writes_write v level h.1).bind fun _ _ => (writes_writeItems rest level h.2).map _

theorem writes_writeEntries : ∀ (entries : List (Scalar × Value)) (level : Nat), entriesJson entries = true →
    Writes (areEntriesWritable entries) (Json.writeEntries style level entries)
  | [], level, h => .ok []
  | (.str key, v) :: rest, level, h => by
    rw [entriesJson, Bool.and_eq_true] at h
    rw [Json.writeEntries, areEntriesWritable]
    exact (writes_write v level h.1).bind fun _ _ => (writes_writeEntries rest level h.2).map _

end

end Write

section Write
variable (style : Json.Style)

theorem written_fails (v : Value) : FailsOnly Fault.OfReferences v.written :=
  (writes_written v).fails.mono fun _ h => h ▸ .badValue

theorem key_fails (k : Scalar) : FailsOnly Fault.OfReferences (Json.key k) := by
  cases k with
  | date | moment | bytes => exact .error .wrongType
  | int n => exact written_fails (.int n)
  | _ => exact .ok _

theorem scalar_fails (s : Scalar) : FailsOnly Fault.OfReferences (Json.scalar style s) := by
  unfold Json.scalar
  split
  case h_3 => exact written_fails _
  case h_6 =>
    split
    · exact .ok _
    · exact .error .wrongType
  all_goals exact .ok _

mutual

/-- A value has no text in JSON only where JSON has no form for a scalar or a key in it, or where a number
is too long. -/
theorem write_fails : ∀ (v : Value) (level : Nat), FailsOnly Fault.OfReferences (Json.write style level v)
  | .scalar s, _ => scalar_fails style s
  | .list items, level => by
    rw [Json.write]
    exact (writeItems_fails items (level + 1)).map _
  | .map entries, level => by
    rw [Json.write]
    exact (writeEntries_fails entries (level + 1)).map _
  | .set items, level => by
    rw [Json.write]
    split
    · exact (written_fails _).map _
    · exact .error .wrongType

theorem writeItems_fails : ∀ (items : List Value) (level : Nat),
    FailsOnly Fault.OfReferences (Json.writeItems style level items)
  | [], _ => .ok []
  | v :: rest, level => by
    rw [Json.writeItems]
    exact (write_fails v level).bind fun _ _ => (writeItems_fails rest level).map _

theorem writeEntries_fails : ∀ (entries : List (Scalar × Value)) (level : Nat),
    FailsOnly Fault.OfReferences (Json.writeEntries style level entries)
  | [], _ => .ok []
  | (k, v) :: rest, level => by
    rw [Json.writeEntries]
    refine (key_fails k).bind fun _ _ => (write_fails v level).bind fun _ _ => ?_
    exact (writeEntries_fails rest level).map _

end

end Write

theorem display_fails (v : Value) : FailsOnly Fault.OfReferences v.display := by
  unfold display
  split
  case h_3 | h_4 => exact write_fails .display _ 0
  case h_5 => exact written_fails _
  all_goals exact .ok _

theorem expressionText_fails (v : Value) : FailsOnly Fault.OfReferences v.expressionText := by
  unfold expressionText
  split
  case h_3 => exact written_fails _
  case h_6 | h_7 => exact write_fails .display _ 0
  case h_8 => exact (written_fails _).map _
  all_goals exact .ok _

/-- A value of JSON has a text inside another text, unless a number in it is too long. -/
theorem writes_display {v : Value} (h : v.isJson = true) : Writes v.isWritable v.display := by
  unfold display
  split
  case h_3 | h_4 => exact writes_write .display _ 0 h
  case h_5 => exact writes_written _
  all_goals exact .ok _

theorem writes_expressionText {v : Value} (h : v.isJson = true) : Writes v.isWritable v.expressionText := by
  unfold expressionText
  split
  case h_3 => exact writes_written _
  case h_6 | h_7 => exact writes_write .display _ 0 h
  case h_8 => exact (writes_written _).map _
  all_goals exact .ok _

theorem isJson_scope {vars : Value} (h : vars.isJson = true) : (Template.scope vars).isJson = true := by
  unfold Template.scope
  split
  · exact h
  · rfl

theorem isWritable_scope {vars : Value} (h : vars.isWritable = true) : (Template.scope vars).isWritable = true := by
  unfold Template.scope
  split
  · exact h
  · rfl

end Value

/-! ## Paths -/

namespace Path

theorem index?_fails (key : List Char) : FailsOnly (· = .badValue) (index? key) := by
  unfold index?
  dsimp only
  split
  · exact .ok _
  split
  · exact .error rfl
  · exact .ok _

theorem step_fails (container : Value) (key : List Char) : FailsOnly (· = .badValue) (step container key) := by
  unfold step
  split
  · exact .ok _
  · refine (index?_fails key).bind fun i _ => ?_
    cases i <;> exact .ok _
  · exact .ok _

theorem follow_fails (keys : List (List Char)) (v : Value) : FailsOnly (· = .badValue) (follow v keys) := by
  induction keys generalizing v with
  | nil => exact .ok _
  | cons key rest ih =>
    refine (step_fails v key).bind fun next _ => ?_
    cases next with
    | none => exact .ok _
    | some next => exact ih next

theorem lookupText_fails (path : String) (context : Value) : FailsOnly (· = .badValue) (lookupText path context) := by
  unfold lookupText
  dsimp only
  split
  · exact .ok _
  · exact (follow_fails _ context).map _

theorem lookup_fails (path context : Value) : FailsOnly (· = .badValue) (lookup path context) := by
  unfold lookup
  split
  · exact .ok _
  · exact (Value.writes_written _).fails.bind fun _ _ => lookupText_fails _ context

/-- A segment stands for a key or for an index that is a number. -/
def Legible (path : String) : Prop := ∀ key ∈ steps (Text.trimList path.toList), ∃ i, index? key = .ok i

/-- Lookups only fail for an index that is no number. -/
theorem exists_lookupText {path : String} (h : Legible path) (context : Value) : ∃ v, lookupText path context = .ok v := by
  have hfollow : ∀ (keys : List (List Char)) (v : Value), (∀ key ∈ keys, ∃ i, index? key = .ok i) →
      ∃ found, follow v keys = .ok found := by
    intro keys
    induction keys with
    | nil => exact fun v _ => ⟨_, rfl⟩
    | cons key rest ih =>
      intro v hkeys
      obtain ⟨i, hi⟩ := hkeys key (by simp)
      have hstep : ∃ next, step v key = .ok next := by
        unfold step
        split
        · exact ⟨_, rfl⟩
        · rw [hi]
          cases i <;> exact ⟨_, rfl⟩
        · exact ⟨_, rfl⟩
      obtain ⟨next, hnext⟩ := hstep
      rw [follow, hnext]
      cases next with
      | none => exact ⟨_, rfl⟩
      | some next => exact ih next fun key hkey => hkeys key (by simp [hkey])
  unfold lookupText
  dsimp only
  split
  · exact ⟨_, rfl⟩
  · obtain ⟨found, hfound⟩ := hfollow _ context h
    exact ⟨found.getD .null, by rw [hfound]; rfl⟩

variable {P : Value → Prop}

theorem holds_of_step {container next : Value} {key : List Char} (hP : Value.Inherits P) (hcontainer : P container)
    (h : step container key = .ok (some next)) : P next := by
  unfold step at h
  split at h
  · exact hP.entry hcontainer (Entries.mem_of_get? (Except.ok.inj h))
  · obtain ⟨i, -, h⟩ := bind_eq_ok.1 h
    cases i with
    | none => cases h
    | some i =>
      have hitem := Except.ok.inj h
      unfold item? at hitem
      split at hitem
      · exact hP.item hcontainer (List.mem_of_getElem? hitem)
      · split at hitem
        · exact hP.item hcontainer (List.mem_of_getElem? hitem)
        · cases hitem
  · cases h

theorem holds_of_follow {keys : List (List Char)} {v found : Value} (hP : Value.Inherits P) (hv : P v)
    (h : follow v keys = .ok (some found)) : P found := by
  induction keys generalizing v with
  | nil =>
    cases h
    exact hv
  | cons key rest ih =>
    obtain ⟨next, hnext, h⟩ := bind_eq_ok.1 h
    cases next with
    | none => cases h
    | some next => exact ih (holds_of_step hP hv hnext) h

/-- What a path names has the properties that the context has with all its parts. -/
theorem holds_of_lookupText {path : String} {context v : Value} (hP : Value.Inherits P) (hcontext : P context)
    (h : lookupText path context = .ok v) : P v := by
  unfold lookupText at h
  dsimp only at h
  split at h
  · cases h
    exact hP.null
  · obtain ⟨found, hfound, h⟩ := bind_eq_ok.1 h
    cases h
    cases found with
    | none => exact hP.null
    | some v => exact holds_of_follow hP hcontext hfound

end Path

/-! ## References -/

namespace Template

variable {allowed : Fault → Prop} {textOf : List Char → Except Fault String}

theorem fill_fails (ps : List Piece) (h : ∀ path, .reference path ∈ ps → FailsOnly allowed (textOf path)) :
    FailsOnly allowed (fill textOf ps) := by
  induction ps with
  | nil => exact .ok _
  | cons piece rest ih =>
    have hrest := ih fun path hpath => h path (by simp [hpath])
    cases piece with
    | literal c => exact hrest.map _
    | reference path => exact (h path (by simp)).bind fun text _ => hrest.map _

/-- References into a value of JSON fail where their paths do, or where a number is too long. -/
theorem textOf_fails {context : Value} (hjson : context.isJson = true) {spell : Value → Except Fault String}
    (hspell : ∀ v : Value, v.isJson = true → Writes v.isWritable (spell v)) (path : List Char) :
    FailsOnly (· = .badValue) (do spell (← Path.lookupText (String.ofList path) context)) :=
  (Path.lookupText_fails _ context).bind fun v hv => (hspell v (Path.holds_of_lookupText Value.inherits_isJson hjson hv)).fails

/-- References into any value fail also where what they name has no text. -/
theorem textOf_fails_over_any {context : Value} {spell : Value → Except Fault String}
    (hspell : ∀ v : Value, FailsOnly Fault.OfReferences (spell v)) (path : List Char) :
    FailsOnly Fault.OfReferences (do spell (← Path.lookupText (String.ofList path) context)) :=
  ((Path.lookupText_fails _ context).mono fun _ h => h ▸ .badValue).bind fun v _ => hspell v

theorem resolveText_fails_over_any (context : Value) (s : String) :
    FailsOnly Fault.OfReferences (resolveText s context) := by
  unfold resolveText
  dsimp only
  split
  · exact .ok _
  split
  · exact (Path.lookupText_fails _ _).mono fun _ h => h ▸ .badValue
  · exact (fill_fails _ fun path _ => textOf_fails_over_any Value.display_fails path).map _

theorem resolveText_fails {context : Value} (hjson : context.isJson = true) (s : String) :
    FailsOnly (· = .badValue) (resolveText s context) := by
  have hscope := Value.isJson_scope hjson
  unfold resolveText
  dsimp only
  split
  · exact .ok _
  split
  · exact Path.lookupText_fails _ _
  · exact (fill_fails _ fun path _ => textOf_fails hscope (fun _ => Value.writes_display) path).map _

/-- The paths of the references in a text have no index that is not a number. -/
def Legible (s : String) : Prop := ∀ path, .reference path ∈ pieces s.toList → Path.Legible (String.ofList path)

theorem exists_resolveText {context : Value} (hjson : context.isJson = true) (hwritable : context.isWritable = true)
    {s : String} (h : Legible s) : ∃ v, resolveText s context = .ok v := by
  have hscope := Value.isJson_scope hjson
  unfold resolveText
  dsimp only
  split
  · exact ⟨_, rfl⟩
  split
  · next path hsole =>
    refine Path.exists_lookupText (h path ?_) _
    unfold sole? at hsole
    split at hsole
    · next other heq =>
      cases hsole
      have hmem : Piece.reference path ∈ (pieces s.toList).filter fun p => !p.isBlank := by simp [heq]
      exact (List.mem_filter.1 hmem).1
    · cases hsole
  · refine FailsOnly.exists_ok (FailsOnly.map (fill_fails _ fun path hpath => ?_) _)
    obtain ⟨v, hv⟩ := Path.exists_lookupText (h path hpath) (scope context)
    obtain ⟨text, htext⟩ := (Value.writes_display (Path.holds_of_lookupText Value.inherits_isJson hscope hv)).iff.2
      (Path.holds_of_lookupText Value.inherits_isWritable (Value.isWritable_scope hwritable) hv)
    rw [hv]
    intro fault hfault
    have hok : v.display = .error fault := hfault
    rw [htext] at hok
    cases hok

end Template

/-! ## Numbers -/

namespace Number

theorem toFloat_fails (n : Number) : FailsOnly (· = .overflow) n.toFloat := by
  unfold toFloat
  split
  · split
    · exact .ok _
    · exact .error rfl
  · exact .ok _

theorem toInt_fails (n : Number) : FailsOnly Fault.OfNumbers n.toInt := by
  unfold toInt
  split
  · exact .ok _
  split
  · exact .ok _
  split
  · exact .error .badValue
  · exact .error .overflow

theorem toFloat_fails_of_numbers (n : Number) : FailsOnly Fault.OfNumbers n.toFloat :=
  n.toFloat_fails.mono fun _ h => h ▸ .overflow

theorem combine_fails (onInt : Int → Int → Int) (onFloat : Float → Float → Float) (a b : Number) :
    FailsOnly Fault.OfNumbers (combine onInt onFloat a b) := by
  unfold combine
  split
  · exact .ok _
  · exact a.toFloat_fails_of_numbers.bind fun x _ => b.toFloat_fails_of_numbers.map _

theorem ratio_fails (a : Int) {b : Int} (hb : b ≠ 0) : FailsOnly Fault.OfNumbers (ratio a b) := by
  unfold ratio
  rw [if_neg hb]
  split
  · exact .ok _
  · exact .error .overflow

/-- The double of a number is zero only where the number is. -/
theorem beq_zero_of_toFloat {n : Number} {x : Float} (hn : n.isZero = false) (hx : n.toFloat = .ok x) :
    (x == 0) = false := by
  cases n with
  | float y =>
    cases hx
    exact hn
  | int n =>
    have hne : n ≠ 0 := by simpa [isZero] using hn
    have hsome : Double.ofInt? n = some x := by
      cases hn : Double.ofInt? n with
      | none => simp [toFloat, hn] at hx
      | some y => simpa [toFloat, hn] using hx
    have hzero : Double.ofInt? 0 = some 0 := by decide +kernel
    have hrounded : Double.nearestWhole n ≠ Double.nearestWhole 0 := by
      have hself (m : Int) (hm : m.natAbs ≤ 1) : Double.nearestWhole m = m :=
        Double.nearestWhole_eq_self (Nat.le_trans hm (by decide))
      rcases Int.lt_or_gt_of_ne hne with hlt | hgt
      · have hmono := Double.nearestWhole_mono (show n ≤ -1 by omega)
        rw [hself (-1) (by decide)] at hmono
        rw [hself 0 (by decide)]
        omega
      · have hmono := Double.nearestWhole_mono (show 1 ≤ n by omega)
        rw [hself 1 (by decide)] at hmono
        rw [hself 0 (by decide)]
        omega
    exact Bool.eq_false_iff.2 fun h => hrounded ((Double.beq_iff_of_ofInt? hsome hzero).1 h)

theorem div_fails (a : Number) {b : Number} (hb : b.isZero = false) : FailsOnly Fault.OfNumbers (a.div b) := by
  unfold div
  split
  · exact ratio_fails _ (by simpa [isZero] using hb)
  · refine a.toFloat_fails_of_numbers.bind fun x _ => b.toFloat_fails_of_numbers.bind fun y hy => ?_
    rw [beq_zero_of_toFloat hb hy]
    exact .ok _

end Number

namespace Value

open Double

theorem numeralNumber_fails (n : Numeral) : FailsOnly (· = .badValue) (numeralNumber n) := by
  unfold numeralNumber
  dsimp only
  split
  · exact .error rfl
  split
  · split
    · exact .ok _
    · exact .error rfl
  · exact .ok _

theorem toNumber_fails (v : Value) : FailsOnly Fault.OfNumbers v.toNumber := by
  unfold toNumber
  split
  case h_5 =>
    split
    · exact (numeralNumber_fails _).mono fun _ h => h ▸ .badValue
    · exact .error (.expression _)
  case h_6 =>
    refine ((writes_shown _).fails.mono fun _ h => h ▸ .badValue).bind fun shown _ => ?_
    exact .error (.expression _)
  all_goals exact .ok _

theorem looseEquals_fails (a b : Value) : FailsOnly Fault.OfNumbers (looseEquals a b) := by
  unfold looseEquals
  split
  case h_5 =>
    split
    · refine (toNumber_fails a).bind fun m _ => m.toFloat_fails_of_numbers.bind fun x _ => ?_
      exact (toNumber_fails b).bind fun n _ => n.toFloat_fails_of_numbers.map _
    · split <;> exact .ok _
  all_goals exact .ok _

theorem order_fails (a b : Value) : FailsOnly Fault.OfNumbers (order a b) := by
  have hnumbers : FailsOnly Fault.OfNumbers (do return ((← a.toNumber).compare? (← b.toNumber)).getD .eq) :=
    (toNumber_fails a).bind fun m _ => (toNumber_fails b).map _
  unfold order
  split
  · split
    · exact hnumbers
    · exact .ok _
  · split
    · exact hnumbers
    · exact .error (.expression _)

theorem leadingOfText_fails (s : String) : FailsOnly (· = .badValue) (leadingOfText s) := by
  unfold leadingOfText
  split
  · split
    · exact .ok _
    · exact .error rfl
  · exact .ok _

theorem leadingNumber_fails (v : Value) : FailsOnly Fault.OfNumbers v.leadingNumber := by
  have htext (s : String) : FailsOnly Fault.OfNumbers (leadingOfText s) :=
    (leadingOfText_fails s).mono fun _ h => h ▸ .badValue
  unfold leadingNumber
  split
  case h_3 => exact htext _
  case h_8 => exact ((writes_written _).fails.mono fun _ h => h ▸ .badValue).bind fun text _ => htext text
  case h_6 => exact Number.toFloat_fails_of_numbers _
  all_goals exact .ok _

end Value

end Flowline
