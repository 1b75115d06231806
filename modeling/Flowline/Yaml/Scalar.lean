import Flowline.Json.Read
import Flowline.Yaml.Token

/-!
The text of scalars in their five styles: plain, in single or double quotes, and literal or folded in a
block. Line breaks inside a scalar are folded into blanks except in literal blocks.
-/

namespace Flowline.Yaml

/-- Breaks a text is folded at: a single line feed becomes a blank, further ones stay. -/
def foldBreaks (first : Char) (further : List Char) : List Char :=
  if first != '\n' then first :: further
  else if further.isEmpty then [' ']
  else further

/-! ## Quoted scalars -/

/-- The code point that a letter after a backslash stands for. -/
def escapeCode? (c : Char) : Option Nat :=
  match c with
  | '0' => some 0
  | 'a' => some 7
  | 'b' => some 8
  | 't' => some 9
  | '\t' => some 9
  | 'n' => some 10
  | 'v' => some 11
  | 'f' => some 12
  | 'r' => some 13
  | 'e' => some 27
  | ' ' => some 32
  | '"' => some 34
  | '\\' => some 92
  | '/' => some 47
  | 'N' => some 0x85
  | '_' => some 0xA0
  | 'L' => some 0x2028
  | 'P' => some 0x2029
  | _ => none

/-- How many digits in base sixteen follow a letter after a backslash. -/
def escapeSize? (c : Char) : Option Nat :=
  match c with
  | 'x' => some 2
  | 'u' => some 4
  | 'U' => some 8
  | _ => none

def hexNumber (cs : List Char) : Nat :=
  cs.foldl (fun n c => 16 * n + (Json.hexValue? c).getD 0) 0

/-- Blanks and line breaks in a quoted scalar after a first line break. -/
def quotedBreaks (fuel : Nat) (c : Cursor) : Except Failure (List Char × Cursor) :=
  match fuel with
  | 0 => .error .malformed
  | fuel + 1 =>
    if c.isDocumentMark then .error .malformed
    else
      let c := c.skipWhile fun x => x == ' ' || x == '\t'
      match c.lineBreak? with
      | some (b, c) => do
        let (bs, c) ← quotedBreaks fuel c
        return (b :: bs, c)
      | none => .ok ([], c)

/-- Blanks in a quoted scalar, or line breaks folded. -/
def quotedSpaces (c : Cursor) : Except Failure (List Char × Cursor) :=
  let (blanks, c) := c.takeWhile fun x => x == ' ' || x == '\t'
  if c.rest.isEmpty then .error .malformed
  else
    match c.lineBreak? with
    | some (b, c) => do
      let (bs, c) ← quotedBreaks (c.rest.length + 1) c
      return (foldBreaks b bs, c)
    | none => .ok (blanks, c)

/-- An escape in double quotes, from after its backslash. -/
def escape (c : Cursor) : Except Failure (List Char × Cursor) :=
  match escapeCode? c.head, escapeSize? c.head with
  | some n, _ => .ok ([Char.ofNat n], c.next)
  | none, some size =>
    let digits := (c.rest.drop 1).take size
    if digits.length = size ∧ digits.all (fun d => (Json.hexValue? d).isSome) then
      let n := hexNumber digits
      if n < 0x110000 then .ok ([Char.ofNat n], c.skip (size + 1)) else .error (.scalar .badValue)
    else .error .malformed
  | none, none =>
    match c.lineBreak? with
    | some (_, c) => quotedBreaks (c.rest.length + 1) c
    | none => .error .malformed

/-- The rest of a quoted scalar after what has been read of it, up to its closing quote. -/
def quotedBody (fuel : Nat) (isDouble : Bool) (acc : List (List Char)) (c : Cursor) :
    Except Failure (String × Cursor) :=
  match fuel with
  | 0 => .error .malformed
  | fuel + 1 =>
    let quote := if isDouble then '"' else '\''
    match c.rest with
    | [] => .error .malformed
    | x :: rest =>
      if !isDouble && x == '\'' && rest.headD endMark == '\'' then
        quotedBody fuel isDouble (['\''] :: acc) (c.skip 2)
      else if x == quote then .ok (String.ofList acc.reverse.flatten, c.next)
      else if isDouble && x == '\\' then do
        let (chunk, c) ← escape c.next
        quotedBody fuel isDouble (chunk :: acc) c
      else if isSpaceOrEnd x then do
        let (chunk, c) ← quotedSpaces c
        quotedBody fuel isDouble (chunk :: acc) c
      else quotedBody fuel isDouble ([x] :: acc) c.next

def quotedScalar (c : Cursor) : Except Failure (String × Cursor) :=
  quotedBody (c.rest.length + 1) (c.head == '"') [] c.next

/-! ## Plain scalars -/

/-- A character ends a run of a plain scalar, given the one after it. -/
def endsPlain (inFlow : Bool) (x next : Char) : Bool :=
  let flowMarks := [',', '[', ']', '\x7b', '\x7d']
  isSpaceOrEnd x || (x == ':' && (isSpaceOrEnd next || (inFlow && flowMarks.contains next))) ||
    (inFlow && (x == '?' || flowMarks.contains x))

/-- The run of a plain scalar at the front of a text. -/
def plainRun (inFlow : Bool) : List Char → List Char
  | [] => []
  | x :: rest => if endsPlain inFlow x (rest.headD endMark) then [] else x :: plainRun inFlow rest

/-- Line breaks and blanks after a first line break; none where a document mark follows. -/
def plainBreaks (fuel : Nat) (c : Cursor) : Option (List Char) × Cursor :=
  match fuel with
  | 0 => (none, c)
  | fuel + 1 =>
    if c.head == ' ' then plainBreaks fuel c.next
    else
      match c.lineBreak? with
      | some (b, c) =>
        if c.isDocumentMark then (none, c)
        else
          let (bs?, c) := plainBreaks fuel c
          (bs?.map (b :: ·), c)
      | none => (some [], c)

/-- What is between the runs of a plain scalar; nothing ends the scalar. The truth value tells whether a
line has ended. -/
def plainSpaces (c : Cursor) : List Char × Bool × Cursor :=
  let (blanks, c) := c.takeWhile (· == ' ')
  match c.lineBreak? with
  | some (b, c) =>
    if c.isDocumentMark then ([], true, c)
    else
      match plainBreaks (c.rest.length + 1) c with
      | (some bs, c) => (foldBreaks b bs, true, c)
      | (none, c) => ([], true, c)
  | none => (blanks, false, c)

/-- A plain scalar after what has been read of it, with the space before its next run. The truth value
tells whether a key may follow, as the scalar has ended a line. -/
def plainBody (fuel : Nat) (inFlow : Bool) (indent : Int) (acc : List (List Char))
    (space : List Char) (allowKey : Bool) (c : Cursor) : String × Bool × Cursor :=
  let text := String.ofList acc.reverse.flatten
  match fuel with
  | 0 => (text, allowKey, c)
  | fuel + 1 =>
    let run := plainRun inFlow c.rest
    if c.head == '#' || run.isEmpty then (text, allowKey, c)
    else
      let acc := run :: space :: acc
      let text := String.ofList acc.reverse.flatten
      let (space, broken, c) := plainSpaces (c.skip run.length)
      if space.isEmpty || c.head == '#' || (!inFlow && c.column < indent) then (text, broken, c)
      else plainBody fuel inFlow indent acc space broken c

def plainScalar (inFlow : Bool) (indent : Int) (c : Cursor) : String × Bool × Cursor :=
  plainBody (c.rest.length + 1) inFlow (indent + 1) [] [] false c

/-! ## Block scalars -/

/-- What happens to line breaks at the end of a block scalar. -/
inductive Chomping
  | strip | clip | keep
deriving Repr, DecidableEq

def chomping? (c : Char) : Option Chomping :=
  if c == '+' then some .keep else if c == '-' then some .strip else none

def headerIndent? (c : Char) : Except Failure (Option Nat) :=
  if c == '0' then .error .malformed
  else if c.isDigit then .ok (some (c.toNat - 48))
  else .ok none

/-- Chomping and indent of a block scalar, in either order. -/
def blockHeader (c : Cursor) : Except Failure (Chomping × Option Nat × Cursor) := do
  match chomping? c.head with
  | some chomping =>
    match ← headerIndent? c.next.head with
    | some n => return (chomping, some n, c.skip 2)
    | none => return (chomping, none, c.next)
  | none =>
    match ← headerIndent? c.head with
    | some n =>
      match chomping? c.next.head with
      | some chomping => return (chomping, some n, c.skip 2)
      | none => return (.clip, some n, c.next)
    | none => return (.clip, none, c)

/-- The rest of a header's line: blanks and a comment. -/
def headerLine (c : Cursor) : Except Failure Cursor :=
  let c := c.skipWhile (· == ' ')
  let c := if c.head == '#' then c.skipWhile (!isBreakOrEnd ·) else c
  match c.lineBreak? with
  | some (_, c) => .ok c
  | none => if c.rest.isEmpty then .ok c else .error .malformed

/-- Leading blank lines, and the largest column that blanks reach on them. -/
def blockIndentation (fuel : Nat) (breaks : List Char) (most : Nat) (c : Cursor) :
    List Char × Nat × Cursor :=
  match fuel with
  | 0 => (breaks, most, c)
  | fuel + 1 =>
    if c.head == ' ' then blockIndentation fuel breaks (max most c.next.column) c.next
    else
      match c.lineBreak? with
      | some (b, c) => blockIndentation fuel (breaks ++ [b]) most c
      | none => (breaks, most, c)

/-- Blank lines, and the indent of the line after them. -/
def blockBreaks (fuel : Nat) (indent : Nat) (c : Cursor) : List Char × Cursor :=
  match fuel with
  | 0 => ([], c)
  | fuel + 1 =>
    let blanks := (c.rest.take (indent - c.column)).takeWhile (· == ' ')
    let c := c.skip blanks.length
    match c.lineBreak? with
    | some (b, c) =>
      let (bs, c) := blockBreaks fuel indent c
      (b :: bs, c)
    | none => ([], c)

def isInlineBlank (c : Char) : Bool := c == ' ' || c == '\t'

/-- The lines of a block scalar: its text so far in reverse, the blank lines before the next line, and
the last line break with the blank lines after it at the end. -/
def blockLines (fuel : Nat) (folded : Bool) (indent : Nat) (acc : List (List Char))
    (breaks : List Char) (last : List Char) (c : Cursor) :
    List (List Char) × List Char × List Char × Cursor :=
  match fuel with
  | 0 => (acc, last, breaks, c)
  | fuel + 1 =>
    if c.column = indent ∧ !c.rest.isEmpty then
      let startsWithBlank := isInlineBlank c.head
      let (line, c) := c.takeWhile (!isBreakOrEnd ·)
      let acc := line :: breaks :: acc
      let (broken, c) := match c.lineBreak? with
        | some (b, c) => ([b], c)
        | none => ([], c)
      let (breaks, c) := blockBreaks (c.rest.length + 1) indent c
      if c.column = indent ∧ !c.rest.isEmpty then
        let joint :=
          if folded && broken == ['\n'] && !startsWithBlank && !isInlineBlank c.head then
            if breaks.isEmpty then [' '] else []
          else broken
        blockLines fuel folded indent (joint :: acc) breaks broken c
      else (acc, broken, breaks, c)
    else (acc, last, breaks, c)

/-- A literal or folded scalar, from its mark, inside a block of an indent. -/
def blockScalar (indent : Int) (c : Cursor) : Except Failure (String × Cursor) := do
  let folded := c.head == '>'
  let (chomping, header?, c) ← blockHeader c.next
  let c ← headerLine c
  let least := (max (indent + 1) 1).toNat
  let (breaks, indent, c) :=
    match header? with
    | some n =>
      let indent := least + n - 1
      let (breaks, c) := blockBreaks (c.rest.length + 1) indent c
      (breaks, indent, c)
    | none =>
      let (breaks, most, c) := blockIndentation (c.rest.length + 1) [] 0 c
      (breaks, max least most, c)
  let (acc, last, breaks, c) := blockLines (c.rest.length + 1) folded indent [] breaks [] c
  let ending := match chomping with
    | .strip => []
    | .clip => last
    | .keep => last ++ breaks
  return (String.ofList (acc.reverse.flatten ++ ending), c)

end Flowline.Yaml
