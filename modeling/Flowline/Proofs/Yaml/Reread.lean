import Flowline.Proofs.Value.Entries
import Flowline.Proofs.Yaml.Nodes

/-! # JSON read as YAML

The JSON text of a value is read by YAML as the value, but for the doubles without a point in their text, which become
texts, and for the line ends in texts, which are folded; or it is refused (`read_document`). -/

namespace Flowline

namespace Value

mutual

/-- The value as which YAML reads what JSON has written: some of its doubles are texts, and its texts are folded. Keys
of one line stay as they are. -/
def reread : Value → Value
  | .scalar s => .scalar s.reread
  | .list items => .list (rereadItems items)
  | .map entries => .map (rereadEntries entries)
  | .set items => .set items

def rereadItems : List Value → List Value
  | [] => []
  | v :: rest => v.reread :: rereadItems rest

def rereadEntries : List (Scalar × Value) → List (Scalar × Value)
  | [] => []
  | (k, v) :: rest => (k, v.reread) :: rereadEntries rest

end

mutual

/-- No mapping in a value has a key twice. -/
def isKeyed : Value → Bool
  | .scalar _ => true
  | .list items => allKeyed items
  | .map entries => decide (Entries.Distinct entries) && entriesKeyed entries
  | .set _ => true

def allKeyed : List Value → Bool
  | [] => true
  | v :: rest => v.isKeyed && allKeyed rest

def entriesKeyed : List (Scalar × Value) → Bool
  | [] => true
  | (_, v) :: rest => v.isKeyed && entriesKeyed rest

end

theorem rereadItems_eq (items : List Value) : rereadItems items = items.map reread := by
  induction items with
  | nil => rfl
  | cons v rest ih => rw [rereadItems, ih, List.map_cons]

theorem rereadEntries_eq (entries : List (Scalar × Value)) : rereadEntries entries = entries.map fun p => (p.1, p.2.reread) := by
  induction entries with
  | nil => rfl
  | cons p rest ih => rw [rereadEntries, ih, List.map_cons]

end Value

namespace Yaml.Node

theorem foldedText_of_isSimpleKey {k : String} (hk : (Scalar.str k).isSimpleKey = true) : foldedText k = k := by
  rw [Scalar.isSimpleKey, Lexer.isSimpleKey, Bool.and_eq_true, Bool.not_eq_true'] at hk
  exact foldedText_of_line hk.1

theorem toValue_scalarNode {s : Scalar} (hjson : s.isJson = true) (hwritable : Value.isWritableScalar s = true) :
    toValue (scalarNode s) = .ok (.scalar s.reread) := by
  by_cases hstr : ∃ t, s = .str t
  · obtain ⟨t, rfl⟩ := hstr
    rfl
  · have hplain : ∀ t, s ≠ .str t := fun t heq => hstr ⟨t, heq⟩
    obtain ⟨text, htext⟩ := (Value.writes_write .document (.scalar s) 0 hjson).iff.2 hwritable
    have hvalue := plainValue_scalar hplain hwritable htext
    have hnode : scalarNode s = .scalar (Tag.ofPlain text) text := by
      have hsame : plainText s = text := by
        rw [plainText, show Json.scalar .document s = .ok text from htext]
      cases s with
      | str t => exact absurd rfl (hplain t)
      | _ => rw [scalarNode, hsame]; exact nofun
    rw [hnode, toValue]
    exact hvalue

mutual

/-- The node of a value denotes the value as it is read again. -/
theorem toValue_ofValue : ∀ v : Value, v.isJson = true → v.isWritable = true → v.isKeyed = true →
    v.keys.all Scalar.isSimpleKey = true → toValue (ofValue v) = .ok v.reread
  | .scalar s, hjson, hwritable, _, _ => toValue_scalarNode hjson hwritable
  | .list items, hjson, hwritable, hkeyed, hkeys => by
    rw [ofValue, toValue, toValues_ofItems items hjson hwritable hkeyed hkeys]
    rfl
  | .map entries, hjson, hwritable, hkeyed, hkeys => by
    rw [Value.isKeyed, Bool.and_eq_true, decide_eq_true_eq] at hkeyed
    obtain ⟨hdistinct, hkeyed⟩ := hkeyed
    have hsame : Entries.Distinct (Value.rereadEntries entries) := by
      rw [Entries.distinct_iff_keys] at hdistinct ⊢
      rwa [Value.rereadEntries_eq, List.map_map]
    have hall := Entries.insertAll_of_distinct [] hsame
    rw [ofValue, toValue, toEntries_ofEntries entries hjson hwritable hkeyed hkeys]
    simp only [bind, Except.bind]
    rw [List.nil_append, hall]
    rfl
  | .set _, hjson, _, _, _ => nomatch hjson

theorem toValues_ofItems : ∀ items : List Value, Value.allJson items = true → Value.areWritable items = true →
    Value.allKeyed items = true → (Value.keysOfItems items).all Scalar.isSimpleKey = true →
    toValues (ofItems items) = .ok (Value.rereadItems items)
  | [], _, _, _, _ => rfl
  | v :: rest, hjson, hwritable, hkeyed, hkeys => by
    rw [Value.allJson, Bool.and_eq_true] at hjson
    rw [Value.areWritable, Bool.and_eq_true] at hwritable
    rw [Value.allKeyed, Bool.and_eq_true] at hkeyed
    rw [Value.keysOfItems, List.all_append, Bool.and_eq_true] at hkeys
    rw [ofItems, toValues, toValue_ofValue v hjson.1 hwritable.1 hkeyed.1 hkeys.1,
      toValues_ofItems rest hjson.2 hwritable.2 hkeyed.2 hkeys.2]
    rfl

theorem toEntries_ofEntries : ∀ entries : List (Scalar × Value), Value.entriesJson entries = true →
    Value.areEntriesWritable entries = true → Value.entriesKeyed entries = true →
    (Value.keysOfEntries entries).all Scalar.isSimpleKey = true →
    toEntries (ofEntries entries) = .ok ([], Value.rereadEntries entries)
  | [], _, _, _, _ => rfl
  | (.str k, v) :: rest, hjson, hwritable, hkeyed, hkeys => by
    rw [Value.entriesJson, Bool.and_eq_true] at hjson
    rw [Value.areEntriesWritable, Bool.and_eq_true, Bool.and_eq_true] at hwritable
    rw [Value.entriesKeyed, Bool.and_eq_true] at hkeyed
    rw [Value.keysOfEntries, List.all_cons, List.all_append, Bool.and_eq_true, Bool.and_eq_true] at hkeys
    have hkey : foldedText k = k := foldedText_of_isSimpleKey hkeys.1
    rw [ofEntries, scalarNode, hkey, toEntries, toValue_ofValue v hjson.1 hwritable.1.2 hkeyed.1 hkeys.2.1,
      toEntries_ofEntries rest hjson.2 hwritable.2 hkeyed.2 hkeys.2.2]
    · rfl
    · exact nofun
    · exact nofun

end

end Yaml.Node

namespace Yaml

variable {entries : List (Scalar × Value)} {text : String}

/-- The text of a mapping is read as the mapping, its scalars as they are read again, or refused. -/
theorem read_document (hjson : (Value.map entries).isJson = true) (hwritable : (Value.map entries).isWritable = true)
    (hkeyed : (Value.map entries).isKeyed = true) (h : Json.render .document (.map entries) = .ok text) :
    read text = if (Value.map entries).isReadable then .ok (Value.map entries).reread else .error .malformed := by
  rw [read, Node.ofText_document hjson h]
  cases hreadable : (Value.map entries).isReadable with
  | false => rfl
  | true =>
    rw [Value.isReadable, Bool.and_eq_true] at hreadable
    exact Node.toValue_ofValue _ hjson hwritable hkeyed hreadable.2

end Yaml

end Flowline
