/-!
Tables: values under keys, in the order in which the keys came in. Putting a value under a key that is
there already keeps its place.
-/

namespace Flowline

abbrev Table (κ α : Type) := List (κ × α)

namespace Table

variable {κ α : Type} [BEq κ]

def get? (t : Table κ α) (key : κ) : Option α := List.lookup key t

def contains (t : Table κ α) (key : κ) : Bool := (t.get? key).isSome

/-- Puts a value under a key: in the place of the key if it is there, otherwise at the end. -/
def put (t : Table κ α) (key : κ) (value : α) : Table κ α :=
  match t with
  | [] => [(key, value)]
  | (k, v) :: rest => if key == k then (k, value) :: rest else (k, v) :: put rest key value

def erase (t : Table κ α) (key : κ) : Table κ α := t.filter fun (k, _) => !(key == k)

def keys (t : Table κ α) : List κ := t.map (·.1)

def values (t : Table κ α) : List α := t.map (·.2)

variable [LawfulBEq κ]

theorem get?_put_self (t : Table κ α) (key : κ) (value : α) : (t.put key value).get? key = some value := by
  induction t with
  | nil => simp only [put, get?, List.lookup_cons, beq_self_eq_true]
  | cons entry rest ih =>
    obtain ⟨k, v⟩ := entry
    by_cases h : key = k
    · subst h
      simp only [put, get?, beq_self_eq_true, ite_true, List.lookup_cons]
    · have hb : (key == k) = false := beq_false_of_ne h
      simpa only [put, get?, hb, Bool.false_eq_true, ite_false, List.lookup_cons] using ih

theorem get?_put_of_ne (t : Table κ α) {key other : κ} (value : α) (h : other ≠ key) :
    (t.put key value).get? other = t.get? other := by
  have ho : (other == key) = false := beq_false_of_ne h
  induction t with
  | nil => simp only [put, get?, List.lookup_cons, List.lookup_nil, ho]
  | cons entry rest ih =>
    obtain ⟨k, v⟩ := entry
    by_cases hk : key = k
    · subst hk
      simp only [put, get?, beq_self_eq_true, ite_true, List.lookup_cons, ho]
    · have hb : (key == k) = false := beq_false_of_ne hk
      simp only [put, hb, Bool.false_eq_true, ite_false, get?, List.lookup_cons]
      cases other == k with
      | true => rfl
      | false => exact ih

end Table

end Flowline
