import Flowline.Path
import Flowline.Value.Display

/-!
Texts with references. A reference is a path between double braces; a text that is one reference stands
for the value it names, and in any other text each reference gives way to the text of its value. What
comes in for a reference is not searched again.
-/

namespace Flowline.Template

/-- A piece of a text: literal characters, or a reference with the path between its braces. -/
inductive Piece
  | literal (c : Char)
  | reference (path : List Char)
deriving Repr, DecidableEq

def isNotBrace (c : Char) : Bool := c != '\x7d'

/-- The path of a reference that a text begins with, and the rest. -/
def reference? : List Char → Option (List Char × List Char)
  | '\x7b' :: '\x7b' :: rest =>
    if (rest.takeWhile isNotBrace).isEmpty then none
    else
      match rest.dropWhile isNotBrace with
      | '\x7d' :: '\x7d' :: tail => some (rest.takeWhile isNotBrace, tail)
      | _ => none
  | _ => none

theorem length_of_reference? {cs path rest : List Char} (h : reference? cs = some (path, rest)) :
    rest.length < cs.length := by
  unfold reference? at h
  split at h
  · rename_i body
    have hle := (List.dropWhile_suffix isNotBrace (l := body)).length_le
    split at h
    · simp at h
    · split at h
      · rename_i tail htail
        obtain ⟨_, rfl⟩ : _ ∧ tail = rest := by simpa using h
        rw [htail] at hle
        simp at hle ⊢
        omega
      · simp at h
  · simp at h

def pieces (cs : List Char) : List Piece :=
  match _h : reference? cs with
  | some (path, rest) => .reference path :: pieces rest
  | none =>
    match cs with
    | [] => []
    | c :: rest => .literal c :: pieces rest
termination_by cs.length
decreasing_by
  · exact length_of_reference? (by assumption)
  · simp

def Piece.isReference : Piece → Bool
  | .reference _ => true
  | .literal _ => false

def Piece.isBlank : Piece → Bool
  | .literal c => Text.isBlank c
  | .reference _ => false

/-- The one reference that a text is, blanks around it left out. -/
def sole? (ps : List Piece) : Option (List Char) :=
  match ps.filter fun p => !p.isBlank with
  | [.reference path] => some path
  | _ => none

/-- The text of pieces, with a text for each reference. -/
def fill (textOf : List Char → Except Fault String) : List Piece → Except Fault (List Char)
  | [] => .ok []
  | .literal c :: rest => do return c :: (← fill textOf rest)
  | .reference path :: rest => do
    let text ← textOf path
    return text.toList ++ (← fill textOf rest)

def substitute (textOf : List Char → Except Fault String) (s : String) : Except Fault String := do
  return String.ofList (← fill textOf (pieces s.toList))

def scope (vars : Value) : Value :=
  if vars.isPresent then vars else .map []

def resolveText (s : String) (vars : Value) : Except Fault Value :=
  let ps := pieces s.toList
  if !ps.any Piece.isReference then .ok (.str s)
  else
    match sole? ps with
    | some path => Path.lookupText (String.ofList path) (scope vars)
    | none => do
      let filled ← fill (fun path => do
        (← Path.lookupText (String.ofList path) (scope vars)).display) ps
      return .str (String.ofList filled)

/-- What a value stands for: texts are resolved, other values are as they are. -/
def resolve (v : Value) (vars : Value) : Except Fault Value :=
  match v with
  | .str s => resolveText s vars
  | v => .ok v

mutual

/-- What a value stands for, with the texts at every depth resolved. -/
def resolveDeep (vars : Value) : Value → Except Fault Value
  | .list items => do return .list (← resolveItems vars items)
  | .map entries => do return .map (← resolveEntries vars entries)
  | .scalar s => resolve (.scalar s) vars
  | .set items => .ok (.set items)

def resolveItems (vars : Value) : List Value → Except Fault (List Value)
  | [] => .ok []
  | v :: rest => do
    let v ← resolveDeep vars v
    return v :: (← resolveItems vars rest)

def resolveEntries (vars : Value) :
    List (Scalar × Value) → Except Fault (List (Scalar × Value))
  | [] => .ok []
  | (k, v) :: rest => do
    let v ← resolveDeep vars v
    return (k, v) :: (← resolveEntries vars rest)

end

end Flowline.Template
