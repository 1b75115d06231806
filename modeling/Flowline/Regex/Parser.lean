import Flowline.Json.Read
import Flowline.Regex.Syntax

/-!
Reading patterns of regular expressions, with groups by number and by name, repetitions that are greedy,
lazy or possessive, conditions on places, modes inside a pattern and comments. `Regex.parse` fails on a
pattern with an error in it.
-/

namespace Flowline.Regex

/-- Why a pattern cannot be read. -/
inductive PatternFault
  | invalid
  /-- A count of repetitions is beyond what any text needs. -/
  | countTooLarge
deriving Repr, DecidableEq

/-- What is known of a pattern while it is read. -/
structure Reading where
  /-- The number that the next group gets. -/
  next : Nat
  names : List (String × Nat)
  /-- The widths of the groups that are closed. -/
  widths : List (Nat × Width)
  /-- The modes of the whole pattern. -/
  modes : Modes
  /-- The number of the first group inside the outermost look behind. -/
  behindFrom? : Option Nat
  /-- Groups that must exist in the end. -/
  needed : List Nat
  /-- Every look behind so far has one width. -/
  isEven : Bool

/-- Something read, with what is known after it, and the rest. -/
abbrev Progress (α : Type) := α × Reading × List Char

def Reading.isClosed (st : Reading) (index : Nat) : Bool :=
  (st.widths.lookup index).isSome

/-- A group can be referred to: it is closed and not inside the same look behind. -/
def Reading.canRefer (st : Reading) (index : Nat) : Bool :=
  st.isClosed index &&
    match st.behindFrom? with
    | some first => index < first
    | none => true

/-! ## Escapes -/

def isHex (c : Char) : Bool := (Json.hexValue? c).isSome

def isOctal (c : Char) : Bool := '0' ≤ c && c ≤ '7'

def numberIn (base : Nat) (cs : List Char) : Nat :=
  cs.foldl (fun n c => base * n + (Json.hexValue? c).getD 0) 0

/-- A code point of exactly so many digits in base sixteen. -/
def hexCode? (size : Nat) (cs : List Char) : Except PatternFault (Nat × List Char) :=
  let ds := (cs.take size).takeWhile isHex
  let n := numberIn 16 ds
  if ds.length = size ∧ n < 0x110000 then .ok (n, cs.drop size) else .error .invalid

/-- The control character that a letter after a backslash stands for. -/
def controlCode? (c : Char) : Option Nat :=
  match c with
  | 'a' => some 7
  | 'b' => some 8
  | 'f' => some 12
  | 'n' => some 10
  | 'r' => some 13
  | 't' => some 9
  | 'v' => some 11
  | '\\' => some 92
  | _ => none

/-- The kind of characters that a letter after a backslash stands for. -/
def kindItem? (c : Char) : Option CharItem :=
  match c with
  | 'd' => some (.kind .digit false)
  | 'D' => some (.kind .digit true)
  | 's' => some (.kind .space false)
  | 'S' => some (.kind .space true)
  | 'w' => some (.kind .word false)
  | 'W' => some (.kind .word true)
  | _ => none

/-- An escape by code point, or a character that stands for itself; from after the backslash. -/
def plainEscape (cs : List Char) : Except PatternFault (Nat × List Char) :=
  match cs with
  | 'x' :: rest => hexCode? 2 rest
  | 'u' :: rest => hexCode? 4 rest
  | 'U' :: rest => hexCode? 8 rest
  | c :: rest => if c.isAlphanum then .error .invalid else .ok (c.toNat, rest)
  | [] => .error .invalid

/-- An escape inside a set of characters, from after the backslash. -/
def setEscape (cs : List Char) : Except PatternFault (CharItem × List Char) :=
  match cs with
  | [] => .error .invalid
  | c :: rest =>
    match controlCode? c, kindItem? c with
    | some n, _ => .ok (.code n, rest)
    | none, some item => .ok (item, rest)
    | none, none =>
      if isOctal c then
        let ds := (c :: rest.take 2).takeWhile isOctal
        let n := numberIn 8 ds
        if n ≤ 0o377 then .ok (.code n, (c :: rest).drop ds.length) else .error .invalid
      else do
        let (n, rest) ← plainEscape cs
        return (.code n, rest)

/-! ## Sets of characters -/

def setItem (cs : List Char) : Except PatternFault (CharItem × List Char) :=
  match cs with
  | '\\' :: rest => setEscape rest
  | c :: rest => .ok (.code c.toNat, rest)
  | [] => .error .invalid

/-- The items of a set up to its closing bracket, which may come first as an item. -/
def setItems (fuel : Nat) (items : List CharItem) (cs : List Char) :
    Except PatternFault (List CharItem × List Char) :=
  match fuel with
  | 0 => .error .invalid
  | fuel + 1 =>
    match cs with
    | [] => .error .invalid
    | c :: rest =>
      if c == ']' && !items.isEmpty then .ok (items, rest)
      else do
        let (item, rest) ← setItem cs
        match rest with
        | '-' :: ']' :: rest => return (items ++ [item, .code 45], rest)
        | '-' :: rest =>
          let (last, rest) ← setItem rest
          match item, last with
          | .code low, .code high =>
            if low ≤ high then setItems fuel (items ++ [.range low high]) rest else .error .invalid
          | _, _ => .error .invalid
        | rest => setItems fuel (items ++ [item]) rest

def parseSet (modes : Modes) (cs : List Char) : Except PatternFault (Regex × List Char) := do
  let (negated, body) := match cs with
    | '^' :: rest => (true, rest)
    | rest => (false, rest)
  let (items, rest) ← setItems (body.length + 1) [] body
  return (.set ⟨items, negated, modes.ignoreCase, modes.asciiOnly⟩, rest)

def literal (modes : Modes) (n : Nat) : Regex :=
  .set ⟨[.code n], false, modes.ignoreCase, modes.asciiOnly⟩

/-! ## Escapes outside sets -/

/-- The anchor that a letter after a backslash stands for. -/
def anchorEscape? (modes : Modes) (c : Char) : Option Anchor :=
  match c with
  | 'A' => some .textStart
  | 'Z' => some .textEnd
  | 'b' => some (.boundary modes.asciiOnly)
  | 'B' => some (.notBoundary modes.asciiOnly)
  | _ => none

/-- A reference to a group by number, or an octal code of three digits. -/
def numberEscape (modes : Modes) (st : Reading) (c : Char) (rest : List Char) :
    Except PatternFault (Regex × List Char) :=
  let refer (index : Nat) (rest : List Char) : Except PatternFault (Regex × List Char) :=
    if st.canRefer index then .ok (.backreference index modes.ignoreCase, rest)
    else .error .invalid
  match rest with
  | d :: more =>
    if d.isDigit then
      match more with
      | e :: tail =>
        if isOctal c && isOctal d && isOctal e then
          let n := numberIn 8 [c, d, e]
          if n ≤ 0o377 then .ok (literal modes n, tail) else .error .invalid
        else refer (numberIn 10 [c, d]) more
      | [] => refer (numberIn 10 [c, d]) []
    else refer (numberIn 10 [c]) rest
  | [] => refer (numberIn 10 [c]) []

/-- An escape outside a set, from after the backslash. -/
def parseEscape (modes : Modes) (st : Reading) (cs : List Char) :
    Except PatternFault (Regex × List Char) :=
  match cs with
  | [] => .error .invalid
  | c :: rest =>
    match anchorEscape? modes c, kindItem? c, controlCode? c with
    | some a, _, _ => .ok (.anchor a, rest)
    | none, some item, _ => .ok (.set ⟨[item], false, modes.ignoreCase, modes.asciiOnly⟩, rest)
    | none, none, some n => .ok (literal modes n, rest)
    | none, none, none =>
      if c == '0' then
        let ds := (rest.take 2).takeWhile isOctal
        .ok (literal modes (numberIn 8 ds), rest.drop ds.length)
      else if c.isDigit then numberEscape modes st c rest
      else do
        let (n, rest) ← plainEscape cs
        return (literal modes n, rest)

/-! ## Repetitions -/

/-- The number of repetitions from which on a count is too large. -/
def maxCount : Nat := 4294967295

/-- A repetition mark: how often, and the rest. A brace that begins no count stands for itself. -/
def count? (cs : List Char) : Except PatternFault (Option ((Nat × Option Nat) × List Char)) :=
  match cs with
  | '?' :: rest => .ok (some ((0, some 1), rest))
  | '*' :: rest => .ok (some ((0, none), rest))
  | '+' :: rest => .ok (some ((1, none), rest))
  | '\x7b' :: '\x7d' :: _ => .ok none
  | '\x7b' :: rest =>
    let low := rest.takeWhile Char.isDigit
    let afterLow := rest.drop low.length
    let (high, tail) := match afterLow with
      | ',' :: more => (more.takeWhile Char.isDigit, more.dropWhile Char.isDigit)
      | more => (low, more)
    match tail with
    | '\x7d' :: tail =>
      let least := numberIn 10 low
      let most? := if high.isEmpty then none else some (numberIn 10 high)
      if maxCount ≤ least ∨ maxCount ≤ most?.getD 0 then .error .countTooLarge
      else if most?.any (· < least) then .error .invalid
      else .ok (some ((least, most?), tail))
    | _ => .ok none
  | _ => .ok none

def greed (cs : List Char) : Greed × List Char :=
  match cs with
  | '?' :: rest => (.lazy, rest)
  | '+' :: rest => (.possessive, rest)
  | rest => (.greedy, rest)

/-- A part can be repeated: it is no repetition and no mere place. -/
def isRepeatable : Regex → Bool
  | .repetition _ _ _ _ => false
  | .anchor _ => false
  | _ => true

/-! ## Groups -/

def isNameStart (c : Char) : Bool :=
  c == '_' || (Text.isLetterOrDigit c && !Text.isDigitLike c)

def isGroupName (cs : List Char) : Bool :=
  match cs with
  | [] => false
  | c :: rest => isNameStart c && rest.all Text.isWordChar

def nameUntil (closing : Char) (cs : List Char) : Except PatternFault (List Char × List Char) :=
  match cs.span (· != closing) with
  | ([], _) => .error .invalid
  | (name, _ :: rest) => .ok (name, rest)
  | (_, []) => .error .invalid

/-- Modes that a group turns on and off. -/
structure ModeChange where
  on : List Char
  off : List Char

def isModeLetter (c : Char) : Bool := ['i', 'L', 'm', 's', 'x', 'a', 't', 'u'].contains c

def setModes (letters : List Char) (b : Bool) (m : Modes) : Modes :=
  letters.foldl (fun m c =>
    match c with
    | 'i' => { m with ignoreCase := b }
    | 'm' => { m with multiline := b }
    | 's' => { m with dotAll := b }
    | 'x' => { m with verbose := b }
    | 'a' => { m with asciiOnly := b }
    | 'u' => { m with asciiOnly := !b }
    | _ => m) m

def ModeChange.apply (change : ModeChange) (m : Modes) : Modes :=
  setModes change.off false (setModes change.on true m)

/-- Letters of modes after a question mark. No change stands for modes of the whole pattern. -/
def modeLetters (cs : List Char) :
    Except PatternFault (List Char × Option (List Char) × List Char) :=
  let on := cs.takeWhile isModeLetter
  let alphabets := on.filter fun c => c == 'a' || c == 'u'
  let isMixed := alphabets.contains 'a' && alphabets.contains 'u'
  if on.contains 'L' || isMixed then .error .invalid
  else
    match cs.dropWhile isModeLetter with
    | ')' :: rest => if on.isEmpty then .error .invalid else .ok (on, none, rest)
    | ':' :: rest => if on.contains 't' then .error .invalid else .ok (on, some [], rest)
    | '-' :: rest =>
      let off := rest.takeWhile isModeLetter
      let forbidden := off.any fun c => ['L', 'a', 'u', 't'].contains c
      match rest.dropWhile isModeLetter with
      | ':' :: tail =>
        if off.isEmpty || forbidden || on.contains 't' || off.any on.contains then .error .invalid
        else .ok (on, some off, tail)
      | _ => .error .invalid
    | _ => .error .invalid

/-- The rest after a comment and the character that closes it, which may be missing. A backslash hides the
character after it. -/
def afterComment (closing : Char) : List Char → Except PatternFault (Option (List Char))
  | [] => .ok none
  | ['\\'] => .error .invalid
  | '\\' :: _ :: rest => afterComment closing rest
  | c :: rest => if c == closing then .ok (some rest) else afterComment closing rest

/-- What stands at the start of a group, after its parenthesis. -/
inductive GroupStart
  | capture (name? : Option String)
  | plain
  | atomicStart
  | look (isBehind negated : Bool)
  | comment
  | wholeModes (letters : List Char)
  | modes (change : ModeChange)
  | reference (name : String)
  | condition (name : List Char)

def groupStart (cs : List Char) : Except PatternFault (GroupStart × List Char) :=
  match cs with
  | '?' :: 'P' :: '<' :: rest => do
    let (name, rest) ← nameUntil '>' rest
    if isGroupName name then return (.capture (some (String.ofList name)), rest)
    else .error .invalid
  | '?' :: 'P' :: '=' :: rest => do
    let (name, rest) ← nameUntil ')' rest
    if isGroupName name then return (.reference (String.ofList name), rest) else .error .invalid
  | '?' :: ':' :: rest => .ok (.plain, rest)
  | '?' :: '#' :: rest => do
    match ← afterComment ')' rest with
    | some rest => return (.comment, rest)
    | none => .error .invalid
  | '?' :: '=' :: rest => .ok (.look false false, rest)
  | '?' :: '!' :: rest => .ok (.look false true, rest)
  | '?' :: '<' :: '=' :: rest => .ok (.look true false, rest)
  | '?' :: '<' :: '!' :: rest => .ok (.look true true, rest)
  | '?' :: '(' :: rest => do
    let (name, rest) ← nameUntil ')' rest
    return (.condition name, rest)
  | '?' :: '>' :: rest => .ok (.atomicStart, rest)
  | '?' :: rest => do
    let (on, off?, rest) ← modeLetters rest
    match off? with
    | none => return (.wholeModes on, rest)
    | some off => return (.modes ⟨on, off⟩, rest)
  | rest => .ok (.capture none, rest)

/-- The group that a condition asks for, by name or by number. -/
def conditionGroup (st : Reading) (name : List Char) : Except PatternFault (Nat × Reading) :=
  let checked (index : Nat) (st : Reading) : Except PatternFault (Nat × Reading) :=
    if st.behindFrom?.isNone || st.canRefer index then .ok (index, st) else .error .invalid
  if isGroupName name then
    match st.names.lookup (String.ofList name) with
    | some index => checked index st
    | none => .error .invalid
  else if name.all Char.isDigit then
    let index := numberIn 10 name
    if index = 0 then .error .invalid else checked index { st with needed := index :: st.needed }
  else .error .invalid

def closed (cs : List Char) : Except PatternFault (List Char) :=
  match cs with
  | ')' :: rest => .ok rest
  | _ => .error .invalid

/-- Starts a group that captures, and gives its number. -/
def Reading.openGroup (st : Reading) (name? : Option String) :
    Except PatternFault (Nat × Reading) :=
  let index := st.next
  match name? with
  | none => .ok (index, { st with next := index + 1 })
  | some name =>
    if (st.names.lookup name).isSome then .error .invalid
    else .ok (index, { st with next := index + 1, names := (name, index) :: st.names })

def Reading.closeGroup (st : Reading) (index : Nat) (body : Regex) : Reading :=
  { st with widths := (index, width st.widths body) :: st.widths }

def isVerboseBlank (c : Char) : Bool :=
  c == ' ' || c == '\t' || c == '\n' || c == '\r' || c.toNat == 11 || c.toNat == 12

/-! ## Patterns -/

mutual

/-- Alternatives between bars. `isTop` tells the whole pattern from the inside of a group. -/
def parseChoice (fuel : Nat) (isTop : Bool) (modes : Modes) (st : Reading) (cs : List Char) :
    Except PatternFault (Progress Regex) :=
  match fuel with
  | 0 => .error .invalid
  | fuel + 1 => do
    let (first, st, rest) ← parseParts fuel isTop modes st [] cs
    let (others, st, rest) ← parseOthers fuel isTop modes st rest
    if others.isEmpty then return (.seq first, st, rest)
    else return (.choice (.seq first :: others), st, rest)

def parseOthers (fuel : Nat) (isTop : Bool) (modes : Modes) (st : Reading) (cs : List Char) :
    Except PatternFault (Progress (List Regex)) :=
  match fuel with
  | 0 => .error .invalid
  | fuel + 1 =>
    match cs with
    | '|' :: rest => do
      let modes := if isTop then st.modes else modes
      let (parts, st, rest) ← parseParts fuel false modes st [] rest
      let (others, st, rest) ← parseOthers fuel isTop modes st rest
      return (.seq parts :: others, st, rest)
    | rest => .ok ([], st, rest)

/-- The parts of an alternative, after those read before, which are in reverse. `isFirst` holds where
modes of the whole pattern may stand. -/
def parseParts (fuel : Nat) (isFirst : Bool) (modes : Modes) (st : Reading) (before : List Regex)
    (cs : List Char) : Except PatternFault (Progress (List Regex)) :=
  match fuel with
  | 0 => .error .invalid
  | fuel + 1 =>
    match cs with
    | [] => .ok (before.reverse, st, [])
    | c :: rest =>
      let next (part : Regex) (st : Reading) (rest : List Char) :
          Except PatternFault (Progress (List Regex)) :=
        parseParts fuel isFirst modes st (part :: before) rest
      if c == '|' || c == ')' then .ok (before.reverse, st, cs)
      else if modes.verbose && isVerboseBlank c then parseParts fuel isFirst modes st before rest
      else if modes.verbose && c == '#' then do
        parseParts fuel isFirst modes st before ((← afterComment '\n' rest).getD [])
      else if c == '\\' then do
        let (part, rest) ← parseEscape modes st rest
        next part st rest
      else if c == '[' then do
        let (part, rest) ← parseSet modes rest
        next part st rest
      else if c == '.' then next (.any modes.dotAll) st rest
      else if c == '^' then
        next (.anchor (if modes.multiline then .lineStart else .textStart)) st rest
      else if c == '$' then
        next (.anchor (if modes.multiline then .lineEnd else .lastLineEnd)) st rest
      else if c == '(' then do
        let (start, rest) ← groupStart rest
        match start with
        | .comment => parseParts fuel isFirst modes st before rest
        | .wholeModes letters =>
          if isFirst && before.isEmpty then
            let global := setModes letters true st.modes
            parseParts fuel isFirst global { st with modes := global } before rest
          else .error .invalid
        | .reference name =>
          match st.names.lookup name with
          | none => .error .invalid
          | some index =>
            if st.canRefer index then next (.backreference index modes.ignoreCase) st rest
            else .error .invalid
        | start => do
          let (part, st, rest) ← parseGroup fuel modes st start rest
          next part st rest
      else do
        match ← count? cs with
        | none => next (literal modes c.toNat) st rest
        | some ((least, most?), rest) =>
          let (greed, rest) := greed rest
          match before with
          | [] => .error .invalid
          | item :: earlier =>
            if isRepeatable item then
              parseParts fuel isFirst modes st (.repetition greed least most? item :: earlier) rest
            else .error .invalid

/-- The inside of a group and its closing parenthesis. -/
def parseGroup (fuel : Nat) (modes : Modes) (st : Reading) (start : GroupStart) (cs : List Char) :
    Except PatternFault (Progress Regex) :=
  match fuel with
  | 0 => .error .invalid
  | fuel + 1 =>
    match start with
    | .look isBehind negated => do
      let inner :=
        if isBehind && st.behindFrom?.isNone then { st with behindFrom? := some st.next } else st
      let (body, after, rest) ← parseChoice fuel false modes inner cs
      let after := { after with behindFrom? := st.behindFrom? }
      let rest ← closed rest
      if isBehind then
        let (least, most?) := width after.widths body
        let after := { after with isEven := after.isEven && most? == some least }
        return (.behind negated least body, after, rest)
      else return (.ahead negated body, after, rest)
    | .condition name => do
      let (index, st) ← conditionGroup st name
      let (yes, st, rest) ← parseParts fuel false modes st [] cs
      match rest with
      | '|' :: rest =>
        let (no, st, rest) ← parseParts fuel false modes st [] rest
        return (.conditional index (.seq yes) (.seq no), st, ← closed rest)
      | rest => return (.conditional index (.seq yes) (.seq []), st, ← closed rest)
    | .capture name? => do
      let (index, st) ← st.openGroup name?
      let (body, st, rest) ← parseChoice fuel false modes st cs
      return (.group index body, st.closeGroup index body, ← closed rest)
    | .atomicStart => do
      let (body, st, rest) ← parseChoice fuel false modes st cs
      return (.atomic body, st, ← closed rest)
    | .modes change => do
      let (body, st, rest) ← parseChoice fuel false (change.apply modes) st cs
      return (.seq [body], st, ← closed rest)
    | _ => do
      let (body, st, rest) ← parseChoice fuel false modes st cs
      return (.seq [body], st, ← closed rest)

end

def parse (modes : Modes) (pattern : String) : Except PatternFault Regex := do
  let cs := pattern.toList
  let st : Reading := ⟨1, [], [], modes, none, [], true⟩
  let (r, st, rest) ← parseChoice (4 * cs.length + 4) true modes st cs
  if rest.isEmpty && st.isEven && st.needed.all (· < st.next) then return r else .error .invalid

end Flowline.Regex
