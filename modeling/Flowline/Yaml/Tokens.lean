import Flowline.Yaml.Scalar

/-!
The tokens of a YAML text. Indentation shows as tokens that open and close blocks, and a mapping key that
is known as such only by the colon behind it gets its token at the place where it began.
-/

namespace Flowline.Yaml

/-- A place where a key without a mark may have begun. -/
structure PendingKey where
  /-- How many tokens stand before it. -/
  place : Nat
  /-- Nothing but a key can stand there. -/
  required : Bool
  index : Nat
  line : Nat
  column : Nat

/-- What is known after a part of a text has been read. -/
structure Lexer where
  cursor : Cursor
  /-- The tokens read, the last one first. -/
  tokens : List Token
  /-- The column of the current block, or none (−1) at the top. -/
  indent : Int
  indents : List Int
  /-- How many brackets are open. -/
  flow : Nat
  /-- A key without a mark may begin here. -/
  allowKey : Bool
  /-- Where keys may have begun, by the number of open brackets there. -/
  pending : List (Nat × PendingKey)

namespace Lexer

/-- The largest number of characters in a key without a mark. -/
def keyLimit : Nat := 1024

def start (text : String) : Lexer := ⟨⟨text.toList, 0, 0, 0⟩, [], -1, [], 0, true, []⟩

def push (l : Lexer) (t : Token) : Lexer := { l with tokens := t :: l.tokens }

/-- Inserts a token that had others read after it. -/
def insert (l : Lexer) (place : Nat) (t : Token) : Lexer :=
  { l with tokens := l.tokens.insertIdx (l.tokens.length - place) t }

def skip (l : Lexer) (n : Nat) : Lexer := { l with cursor := l.cursor.skip n }

def allow (l : Lexer) (b : Bool) : Lexer := { l with allowKey := b }

/-! ## Space between tokens -/

/-- Passes blanks, comments and line breaks; a line break lets a key begin in a block. -/
def passSpace (fuel : Nat) (l : Lexer) : Lexer :=
  match fuel with
  | 0 => l
  | fuel + 1 =>
    let c := l.cursor.skipWhile (· == ' ')
    let c := if c.head == '#' then c.skipWhile (!isBreakOrEnd ·) else c
    match c.lineBreak? with
    | some (_, c) => passSpace fuel { l with cursor := c, allowKey := l.allowKey || l.flow = 0 }
    | none => { l with cursor := c }

/-- Passes what stands before the next token, at the front also the mark of the byte order. -/
def toNextToken (l : Lexer) : Lexer :=
  let l := if l.cursor.index = 0 ∧ l.cursor.head.toNat = 0xFEFF then l.skip 1 else l
  passSpace (l.cursor.rest.length + 1) l

/-! ## Keys without marks -/

/-- Forgets keys that would span lines or be too long. -/
def dropStale (l : Lexer) : Except Failure Lexer :=
  let isStale (k : PendingKey) : Bool :=
    k.line != l.cursor.line || l.cursor.index - k.index > keyLimit
  if l.pending.any fun (_, k) => isStale k && k.required then .error .malformed
  else .ok { l with pending := l.pending.filter fun (_, k) => !isStale k }

/-- Forgets the key that may have begun at this depth. -/
def dropPending (l : Lexer) : Except Failure Lexer :=
  if l.pending.any fun (depth, k) => depth = l.flow && k.required then .error .malformed
  else .ok { l with pending := l.pending.filter fun (depth, _) => depth != l.flow }

/-- Notes that a key may begin with the next token. -/
def notePending (l : Lexer) : Except Failure Lexer :=
  if l.allowKey then do
    let required := l.flow = 0 && l.indent = l.cursor.column
    let l ← l.dropPending
    let key : PendingKey :=
      ⟨l.tokens.length, required, l.cursor.index, l.cursor.line, l.cursor.column⟩
    return { l with pending := (l.flow, key) :: l.pending }
  else .ok l

/-! ## Blocks -/

/-- Closes the blocks that are indented further than a column. -/
def unwindTo (column : Int) (fuel : Nat) (l : Lexer) : Lexer :=
  match fuel with
  | 0 => l
  | fuel + 1 =>
    if l.indent > column then
      unwindTo column fuel
        { l with indent := l.indents.headD (-1), indents := l.indents.tail,
                 tokens := .blockEnd :: l.tokens }
    else l

def unwind (l : Lexer) (column : Int) : Lexer :=
  if l.flow = 0 then unwindTo column (l.indents.length + 1) l else l

/-- Opens a block at a column if it is indented further than the current one, its token at a place. -/
def openBlock (l : Lexer) (column place : Nat) (t : Token) : Lexer :=
  if l.indent < column then
    { l with indent := column, indents := l.indent :: l.indents }.insert place t
  else l

/-! ## The tokens -/

def isHexDigit (c : Char) : Bool := (Json.hexValue? c).isSome

/-- The bytes of escapes in a tag, and the place after them. -/
def tagBytes (fuel : Nat) (c : Cursor) : Except Failure (List UInt8 × Cursor) :=
  match fuel with
  | 0 => .error .malformed
  | fuel + 1 =>
    if c.head == '%' then
      if isHexDigit (c.peek 1) && isHexDigit (c.peek 2) then do
        let (bytes, rest) ← tagBytes fuel (c.skip 3)
        return ((hexNumber [c.peek 1, c.peek 2]).toUInt8 :: bytes, rest)
      else .error .malformed
    else .ok ([], c)

def isTagChar (c : Char) : Bool :=
  c.isAlphanum ||
    ['-', ';', '/', '?', ':', '@', '&', '=', '+', '$', ',', '_', '.', '!', '~', '*', '\'', '(', ')',
      '[', ']'].contains c

def tagText (fuel : Nat) (acc : List Char) (c : Cursor) : Except Failure (String × Cursor) :=
  match fuel with
  | 0 => .error .malformed
  | fuel + 1 =>
    if c.head == '%' then do
      let (bytes, c) ← tagBytes (c.rest.length + 1) c
      match String.fromUTF8? ⟨bytes.toArray⟩ with
      | some s => tagText fuel (acc ++ s.toList) c
      | none => .error .malformed
    else
      let (run, c) := c.takeWhile isTagChar
      let acc := acc ++ run
      if c.head == '%' then tagText fuel acc c
      else if acc.isEmpty then .error .malformed
      else .ok (String.ofList acc, c)

def tagSuffix (c : Cursor) : Except Failure (String × Cursor) :=
  tagText (c.rest.length + 1) [] c

/-- The handle of a tag: a mark, or a name between two marks. -/
def tagHandle (c : Cursor) : Except Failure (String × Cursor) :=
  if c.head != '!' then .error .malformed
  else
    let (name, rest) := c.next.takeWhile isNameChar
    if rest.head == '!' then .ok (String.ofList ('!' :: name ++ ['!']), rest.next)
    else if name.isEmpty && rest.head == ' ' then .ok ("!", rest)
    else .error .malformed

def isDirectiveEnd (c : Char) : Bool := c == ' ' || isBreakOrEnd c

def readTag (c : Cursor) : Except Failure (TagText × Cursor) := do
  let (t, c) ←
    if c.peek 1 == '<' then do
      let (suffix, c) ← tagSuffix (c.skip 2)
      if c.head == '>' then pure (TagText.mk none suffix, c.next) else throw .malformed
    else if isSpaceOrEnd (c.peek 1) then pure (TagText.mk none "!", c.next)
    else
      let run := (c.rest.drop 1).takeWhile fun x => !isDirectiveEnd x
      let (handle, c) ← if run.contains '!' then tagHandle c else pure ("!", c.next)
      let (suffix, c) ← tagSuffix c
      pure (TagText.mk (some handle) suffix, c)
  if isDirectiveEnd c.head then return (t, c) else throw .malformed

/-- The name of an anchor or an alias, from its mark. -/
def readName (c : Cursor) : Except Failure (String × Cursor) :=
  let (name, c) := c.next.takeWhile isNameChar
  let mayFollow (x : Char) : Bool :=
    isSpaceOrEnd x || ['?', ':', ',', ']', '\x7d', '%', '@', '\x60'].contains x
  if name.isEmpty || !mayFollow c.head then .error .malformed else .ok (String.ofList name, c)

def readDigits (c : Cursor) : Except Failure (String × Cursor) :=
  let (digits, c) := c.takeWhile Char.isDigit
  if digits.isEmpty then .error .malformed else .ok (String.ofList digits, c)

def directiveArguments (name : String) (c : Cursor) : Except Failure (List String × Cursor) := do
  if name == "YAML" then
    let (major, c) ← readDigits (c.skipWhile (· == ' '))
    if c.head != '.' then throw .malformed
    let (minor, c) ← readDigits c.next
    if isDirectiveEnd c.head then return ([major, minor], c) else throw .malformed
  else if name == "TAG" then
    let (handle, c) ← tagHandle (c.skipWhile (· == ' '))
    if c.head != ' ' then throw .malformed
    let (lead, c) ← tagSuffix (c.skipWhile (· == ' '))
    if isDirectiveEnd c.head then return ([handle, lead], c) else throw .malformed
  else return ([], c.skipWhile (!isBreakOrEnd ·))

/-- A directive, from its mark to the end of its line. -/
def readDirective (c : Cursor) : Except Failure (Token × Cursor) := do
  let (name, c) := c.next.takeWhile isNameChar
  if name.isEmpty || !isDirectiveEnd c.head then throw .malformed
  let name := String.ofList name
  let (args, c) ← directiveArguments name c
  return (.directive name args, ← headerLine c)

/-- The end of the blocks, where a document starts or ends. -/
def endBlocks (l : Lexer) : Except Failure Lexer := do
  return (← (l.unwind (-1)).dropPending).allow false

def documentMark (l : Lexer) (t : Token) : Except Failure Lexer := do
  return ((← l.endBlocks).push t).skip 3

def openBracket (l : Lexer) (t : Token) : Except Failure Lexer := do
  let l ← l.notePending
  return ({ l with flow := l.flow + 1, allowKey := true }.push t).skip 1

/-- A closing bracket; one that closes none fits nowhere. -/
def closeBracket (l : Lexer) (t : Token) : Except Failure Lexer := do
  let l ← l.dropPending
  if l.flow = 0 then throw .malformed
  return ({ l with flow := l.flow - 1, allowKey := false }.push t).skip 1

def flowEntry (l : Lexer) : Except Failure Lexer := do
  return (((← l.dropPending).allow true).push .flowEntry).skip 1

/-- A dash, which opens a sequence if it is indented further. -/
def blockEntry (l : Lexer) : Except Failure Lexer := do
  if l.flow = 0 && !l.allowKey then throw .malformed
  let l := if l.flow = 0 then l.openBlock l.cursor.column l.tokens.length .blockSequenceStart else l
  return (((← l.dropPending).allow true).push .blockEntry).skip 1

/-- A mark of its own before a key or a value, which opens a mapping if it is indented further. -/
def mappingMark (l : Lexer) (t : Token) : Except Failure Lexer := do
  if l.flow = 0 && !l.allowKey then throw .malformed
  let l := if l.flow = 0 then l.openBlock l.cursor.column l.tokens.length .blockMappingStart else l
  return (((← l.dropPending).allow (l.flow = 0)).push t).skip 1

/-- A colon. If a key may have begun before, it has. -/
def valueMark (l : Lexer) : Except Failure Lexer :=
  match l.pending.find? fun (depth, _) => depth = l.flow with
  | some (_, key) =>
    let l := { l with pending := l.pending.filter fun (depth, _) => depth != l.flow }
    let l := l.insert key.place .key
    let l := if l.flow = 0 then l.openBlock key.column key.place .blockMappingStart else l
    .ok (((l.allow false).push .value).skip 1)
  | none => l.mappingMark .value

def keyStart (l : Lexer) (read : Cursor → Except Failure (Token × Cursor)) :
    Except Failure Lexer := do
  let l ← l.notePending
  let (t, c) ← read l.cursor
  return { l with cursor := c, allowKey := false, tokens := t :: l.tokens }

def plain (l : Lexer) : Except Failure Lexer := do
  let l ← l.notePending
  let (text, allowKey, c) := plainScalar (l.flow != 0) l.indent l.cursor
  return { l with cursor := c, allowKey := allowKey, tokens := .scalar text true :: l.tokens }

def block (l : Lexer) : Except Failure Lexer := do
  let l ← l.dropPending
  let (text, c) ← blockScalar l.indent l.cursor
  return { l with cursor := c, allowKey := true, tokens := .scalar text false :: l.tokens }

/-- A character starts a plain scalar, given the one after it. -/
def startsPlain (inFlow : Bool) (x next : Char) : Bool :=
  let marks :=
    ['-', '?', ':', ',', '[', ']', '\x7b', '\x7d', '#', '&', '*', '!', '|', '>', '\'', '"', '%', '@',
      '\x60']
  !(isSpaceOrEnd x || marks.contains x) ||
    (!isSpaceOrEnd next && (x == '-' || (!inFlow && (x == '?' || x == ':'))))

def readToken (l : Lexer) : Except Failure Lexer :=
  let c := l.cursor
  let x := c.head
  let isWord := isSpaceOrEnd (c.peek 1)
  let inFlow := l.flow != 0
  if x == '%' && c.column = 0 then do
    let l ← l.endBlocks
    let (t, c) ← readDirective c
    return { l with cursor := c, tokens := t :: l.tokens }
  else if x == '-' && c.column = 0 && c.isDocumentMark then l.documentMark .documentStart
  else if x == '.' && c.column = 0 && c.isDocumentMark then l.documentMark .documentEnd
  else if x == '[' then l.openBracket .flowSequenceStart
  else if x == '\x7b' then l.openBracket .flowMappingStart
  else if x == ']' then l.closeBracket .flowSequenceEnd
  else if x == '\x7d' then l.closeBracket .flowMappingEnd
  else if x == ',' then l.flowEntry
  else if x == '-' && isWord then l.blockEntry
  else if x == '?' && (inFlow || isWord) then l.mappingMark .key
  else if x == ':' && (inFlow || isWord) then l.valueMark
  else if x == '*' then l.keyStart fun c => do
    let (name, c) ← readName c
    return (.alias name, c)
  else if x == '&' then l.keyStart fun c => do
    let (name, c) ← readName c
    return (.anchor name, c)
  else if x == '!' then l.keyStart fun c => do
    let (t, c) ← readTag c
    return (.tag t, c)
  else if !inFlow && (x == '|' || x == '>') then l.block
  else if x == '\'' || x == '"' then l.keyStart fun c => do
    let (text, c) ← quotedScalar c
    return (.scalar text false, c)
  else if startsPlain inFlow x (c.peek 1) then l.plain
  else .error .malformed

def run (fuel : Nat) (l : Lexer) : Except Failure (List Token) :=
  match fuel with
  | 0 => .error .malformed
  | fuel + 1 => do
    let l ← l.toNextToken.dropStale
    let l := l.unwind l.cursor.column
    if l.cursor.rest.isEmpty then
      let l ← l.endBlocks
      return (Token.streamEnd :: l.tokens).reverse
    else run fuel (← l.readToken)

end Lexer

def tokenize (text : String) : Except Failure (List Token) :=
  if text.toList.all isAllowed then (Lexer.start text).run (text.length + 1) else .error .malformed

end Flowline.Yaml
