/-!
Looking for a text inside another one: containment, cutting at each occurrence, replacing.
-/

namespace Flowline.Text

def occursIn (needle : List Char) : List Char → Bool
  | [] => needle.isEmpty
  | c :: rest => needle.isPrefixOf (c :: rest) || occursIn needle rest

/-- Puts a character in front of the first of some pieces. -/
def consFirst (c : Char) : List (List Char) → List (List Char)
  | [] => [[c]]
  | piece :: rest => (c :: piece) :: rest

/-- The pieces of a text between the occurrences of a mark that is not empty, after leaving out some
characters. -/
def piecesBetween (mark : List Char) : Nat → List Char → List (List Char)
  | _, [] => [[]]
  | skip + 1, _ :: rest => piecesBetween mark skip rest
  | 0, c :: rest =>
    if mark.isPrefixOf (c :: rest) then [] :: piecesBetween mark (mark.length - 1) rest
    else consFirst c (piecesBetween mark 0 rest)

/-- The pieces of a text between the occurrences of a mark; none if the mark is empty. -/
def split? (mark s : String) : Option (List String) :=
  if mark.isEmpty then none else some ((piecesBetween mark.toList 0 s.toList).map String.ofList)

/-- Replaces each occurrence of a mark. The empty mark occurs around every character. -/
def replaceAll (mark replacement s : String) : String :=
  match split? mark s with
  | some pieces => replacement.intercalate pieces
  | none => replacement ++ String.join (s.toList.map fun c => c.toString ++ replacement)

def contains (s needle : String) : Bool := occursIn needle.toList s.toList

def startsWith (s start : String) : Bool := start.toList.isPrefixOf s.toList

def endsWith (s ending : String) : Bool := ending.toList.reverse.isPrefixOf s.toList.reverse

end Flowline.Text
