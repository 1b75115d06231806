import Flowline.Regex.Syntax

/-!
Matching regular expressions. `Regex.outcomes` lists where a match of an expression that starts at a
place can end, in the order of preference, with what the groups have captured.
-/

namespace Flowline.Regex

/-- A place in a text, and what each group has captured. -/
structure Place where
  position : Nat
  captures : List (Nat × Nat × Nat)
deriving Repr, DecidableEq

def once (ps : List Place) : List Place :=
  match ps with
  | [] => []
  | [p] => [p]
  | ps => ps.eraseDups

def andThen (ps : List Place) (f : Place → List Place) : List Place :=
  match ps with
  | [] => []
  | [p] => f p
  | ps => once (ps.flatMap f)

def exactly (step : Place → List Place) : Nat → Place → List Place
  | 0, p => [p]
  | n + 1, p => andThen (step p) (exactly step n)

/-- As many further steps as there is room for, more of them first. A step that does not move is the
last. -/
def more (step : Place → List Place) : Nat → Place → List Place
  | 0, p => [p]
  | n + 1, p =>
    andThen (step p) (fun q => if q.position == p.position then [q] else more step n q) ++ [p]

/-- As many further steps as there is room for, fewer of them first. -/
def fewer (step : Place → List Place) : Nat → Place → List Place
  | 0, p => [p]
  | n + 1, p =>
    p :: andThen (step p) (fun q => if q.position == p.position then [q] else fewer step n q)

def isWordAt (asciiOnly : Bool) (text : Array Char) (i : Nat) : Bool :=
  text[i]?.any (CharKind.word.holds asciiOnly)

/-- Exactly one of the characters around a place belongs to a word. -/
def isBoundary (asciiOnly : Bool) (text : Array Char) (i : Nat) : Bool :=
  let before := if i = 0 then false else isWordAt asciiOnly text (i - 1)
  before != isWordAt asciiOnly text i

/-- A condition holds at a place. No boundary is in an empty text, nor anything that is none. -/
def Anchor.holds (text : Array Char) (i : Nat) : Anchor → Bool
  | .textStart => i == 0
  | .textEnd => i == text.size
  | .lineStart => i == 0 || text[i - 1]? == some '\n'
  | .lineEnd => i == text.size || text[i]? == some '\n'
  | .lastLineEnd => i == text.size || (i + 1 == text.size && text[i]? == some '\n')
  | .boundary asciiOnly => !text.isEmpty && isBoundary asciiOnly text i
  | .notBoundary asciiOnly => !text.isEmpty && !isBoundary asciiOnly text i

/-- Two characters are equal, where case may not matter. -/
def sameChar (ignoreCase : Bool) (a b : Char) : Bool :=
  a == b || (ignoreCase && foldCase false a == foldCase false b)

/-- The text that a group has captured stands at a place again. -/
def repeatsAt (ignoreCase : Bool) (text : Array Char) (first last i : Nat) : Bool :=
  (List.range (last - first)).all fun k =>
    match text[first + k]?, text[i + k]? with
    | some a, some b => sameChar ignoreCase a b
    | _, _ => false

mutual

/-- Where matches from a place end, the preferred ones first. -/
def outcomes (text : Array Char) : Regex → Place → List Place
  | .set chars, p =>
    match text[p.position]? with
    | some c => if chars.holds c then [{ p with position := p.position + 1 }] else []
    | none => []
  | .any dotAll, p =>
    match text[p.position]? with
    | some c => if dotAll || c != '\n' then [{ p with position := p.position + 1 }] else []
    | none => []
  | .seq parts, p => outcomesSeq text parts p
  | .choice parts, p => once (outcomesChoice text parts p)
  | .repetition greed least most? body, p =>
    let step := outcomes text body
    let room := text.size + 1
    let further := match most? with
      | some most => min (most - least) room
      | none => room
    let started := exactly step (min least room) p
    match greed with
    | .greedy => andThen started (more step further)
    | .lazy => andThen started (fewer step further)
    | .possessive => (andThen started (more step further)).take 1
  | .group index body, p =>
    (outcomes text body p).map fun q =>
      { q with captures := (index, p.position, q.position) :: q.captures.filter (·.1 != index) }
  | .atomic body, p => (outcomes text body p).take 1
  | .ahead negated body, p =>
    match outcomes text body p with
    | [] => if negated then [p] else []
    | q :: _ => if negated then [] else [{ p with captures := q.captures }]
  | .behind negated width body, p =>
    let found :=
      if width ≤ p.position then outcomes text body { p with position := p.position - width } else []
    match found with
    | [] => if negated then [p] else []
    | q :: _ => if negated then [] else [{ p with captures := q.captures }]
  | .backreference index ignoreCase, p =>
    match p.captures.lookup index with
    | some (first, last) =>
      if repeatsAt ignoreCase text first last p.position then
        [{ p with position := p.position + (last - first) }]
      else []
    | none => []
  | .conditional index yes no, p =>
    if (p.captures.lookup index).isSome then outcomes text yes p else outcomes text no p
  | .anchor a, p => if a.holds text p.position then [p] else []

def outcomesSeq (text : Array Char) : List Regex → Place → List Place
  | [], p => [p]
  | r :: rest, p => andThen (outcomes text r p) (outcomesSeq text rest)

def outcomesChoice (text : Array Char) : List Regex → Place → List Place
  | [], _ => []
  | r :: rest, p => outcomes text r p ++ outcomesChoice text rest p

end

def occursIn (r : Regex) (s : String) : Bool :=
  let text := s.toList.toArray
  (List.range (text.size + 1)).any fun i => !(outcomes text r ⟨i, []⟩).isEmpty

end Flowline.Regex
