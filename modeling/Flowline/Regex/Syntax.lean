import Flowline.Text.Blank
import Flowline.Text.Case
import Flowline.Text.Digit
import Flowline.Text.Word

/-!
Regular expressions: sets of characters, sequences, choices, repetitions, groups and what looks around a
place without moving from it.
-/

namespace Flowline

namespace Regex

/-- How parts of a pattern are read and matched. -/
structure Modes where
  ignoreCase : Bool
  multiline : Bool
  dotAll : Bool
  verbose : Bool
  asciiOnly : Bool
deriving Repr, DecidableEq, Inhabited

/-- Kinds of characters with a name of their own in patterns. -/
inductive CharKind
  | digit | space | word
deriving Repr, DecidableEq

/-- A member of a set of characters, by code points. -/
inductive CharItem
  | code (n : Nat)
  | range (low high : Nat)
  | kind (k : CharKind) (negated : Bool)
deriving Repr, DecidableEq

/-- A set of characters. -/
structure CharSet where
  items : List CharItem
  negated : Bool
  ignoreCase : Bool
  asciiOnly : Bool
deriving Repr, DecidableEq

/-- A condition on a place in a text. -/
inductive Anchor
  | textStart
  | textEnd
  | lineStart
  | lineEnd
  /-- The end, or the line break that ends the text. -/
  | lastLineEnd
  | boundary (asciiOnly : Bool)
  | notBoundary (asciiOnly : Bool)
deriving Repr, DecidableEq

/-- Which repetitions are tried first, and whether others are tried at all. -/
inductive Greed
  | greedy | lazy | possessive
deriving Repr, DecidableEq

end Regex

/-- A regular expression. -/
inductive Regex
  | set (chars : Regex.CharSet)
  | any (dotAll : Bool)
  | seq (parts : List Regex)
  | choice (parts : List Regex)
  | repetition (greed : Regex.Greed) (least : Nat) (most? : Option Nat) (body : Regex)
  | group (index : Nat) (body : Regex)
  | atomic (body : Regex)
  | ahead (negated : Bool) (body : Regex)
  | behind (negated : Bool) (width : Nat) (body : Regex)
  | backreference (index : Nat) (ignoreCase : Bool)
  | conditional (index : Nat) (yes no : Regex)
  | anchor (a : Regex.Anchor)
deriving Repr, Inhabited

namespace Regex

/-! ## Width -/

/-- The least and the greatest number of characters; no greatest where it is unbounded. -/
abbrev Width := Nat × Option Nat

def Width.add (a b : Width) : Width :=
  (a.1 + b.1, do return (← a.2) + (← b.2))

def Width.union (a b : Width) : Width :=
  (min a.1 b.1, do return max (← a.2) (← b.2))

def Width.times (least : Nat) (most? : Option Nat) (w : Width) : Width :=
  (w.1 * least,
    match w.2, most? with
    | some 0, _ => some 0
    | some n, some most => some (n * most)
    | _, _ => none)

mutual

/-- How many characters an expression can match, given the widths of the groups before it. -/
def width (groups : List (Nat × Width)) : Regex → Width
  | .set _ => (1, some 1)
  | .any _ => (1, some 1)
  | .seq parts => widthSeq groups parts
  | .choice parts => widthChoice groups parts
  | .repetition _ least most? body => (width groups body).times least most?
  | .group _ body => width groups body
  | .atomic body => width groups body
  | .ahead _ _ => (0, some 0)
  | .behind _ _ _ => (0, some 0)
  | .backreference index _ => (groups.lookup index).getD (0, none)
  | .conditional _ yes no => (width groups yes).union (width groups no)
  | .anchor _ => (0, some 0)

def widthSeq (groups : List (Nat × Width)) : List Regex → Width
  | [] => (0, some 0)
  | r :: rest => (width groups r).add (widthSeq groups rest)

def widthChoice (groups : List (Nat × Width)) : List Regex → Width
  | [] => (0, some 0)
  | [r] => width groups r
  | r :: rest => (width groups r).union (widthChoice groups rest)

end

/-! ## Characters -/

/-- Lower case letters that match each other besides their own upper case. -/
def caseVariants : List (Nat × List Nat) := [
  (105, [305]), (115, [383]), (181, [956]), (305, [105]), (383, [115]), (837, [953, 8126]),
  (912, [8147]), (944, [8163]), (946, [976]), (949, [1013]), (952, [977]), (953, [837, 8126]),
  (954, [1008]), (956, [181]), (960, [982]), (961, [1009]), (962, [963]), (963, [962]),
  (966, [981]), (976, [946]), (977, [952]), (981, [966]), (982, [960]), (1008, [954]),
  (1009, [961]), (1013, [949]), (1074, [7296]), (1076, [7297]), (1086, [7298]), (1089, [7299]),
  (1090, [7300, 7301]), (1098, [7302]), (1123, [7303]), (7296, [1074]), (7297, [1076]),
  (7298, [1086]), (7299, [1089]), (7300, [1090, 7301]), (7301, [1090, 7300]), (7302, [1098]),
  (7303, [1123]), (7304, [42571]), (7777, [7835]), (7835, [7777]), (8126, [837, 953]),
  (8147, [912]), (8163, [944]), (42571, [7304]), (64261, [64262]), (64262, [64261])
]

/-- The lower case by which characters are compared where case does not matter. -/
def foldCase (asciiOnly : Bool) (c : Char) : Char :=
  if asciiOnly then c.toLower else Text.lowerSimple c

/-- The code points that match a folded character where case does not matter. -/
def variants (asciiOnly : Bool) (c : Char) : List Nat :=
  if asciiOnly then [c.toNat, c.toUpper.toNat]
  else
    let lowers := c.toNat :: ((caseVariants.lookup c.toNat).getD [])
    lowers ++ lowers.map fun n => (Text.upperSimple (Char.ofNat n)).toNat

def CharKind.holds (asciiOnly : Bool) (k : CharKind) (c : Char) : Bool :=
  match k, asciiOnly with
  | .digit, true => c.isDigit
  | .digit, false => Text.isDecimal c
  | .space, true => Text.isBlank c && (c.toNat < 14 || c == ' ')
  | .space, false => Text.isBlank c
  | .word, true => c.isAlphanum || c == '_'
  | .word, false => Text.isWordChar c

def CharItem.holds (s : CharSet) (c : Char) : CharItem → Bool
  | .code n =>
    if s.ignoreCase then
      let x := foldCase s.asciiOnly (Char.ofNat n)
      x == c || (!s.asciiOnly && ((caseVariants.lookup x.toNat).getD []).contains c.toNat)
    else n == c.toNat
  | .range low high =>
    let codes := if s.ignoreCase then variants s.asciiOnly c else [c.toNat]
    codes.any fun n => low ≤ n && n ≤ high
  | .kind k negated => k.holds s.asciiOnly c != negated

def CharSet.holds (s : CharSet) (c : Char) : Bool :=
  let c := if s.ignoreCase then foldCase s.asciiOnly c else c
  (s.items.any (CharItem.holds s c)) != s.negated

end Regex

end Flowline
