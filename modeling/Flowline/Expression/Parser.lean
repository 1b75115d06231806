import Flowline.Expression.Syntax
import Flowline.Expression.Token
import Flowline.Json.Read
import Flowline.Value.Number

/-!
Reading expressions. Operators bind, from the loosest to the tightest: `or`, `and`, `not`, comparisons,
sums, products, signs. All binary operators group to the left. Only functions with a known name can be
called.
-/

namespace Flowline.Expression

/-! ## Literals -/

/-- The character that a letter after a backslash stands for; most stand for themselves. -/
def escapedChar (c : Char) : Char :=
  match c with
  | 'n' => '\n'
  | 't' => '\t'
  | 'r' => '\r'
  | 'b' => Char.ofNat 8
  | 'f' => Char.ofNat 12
  | c => c

/-- The body of a string with its escapes replaced. -/
def unescape : List Char → List Char
  | '\\' :: 'u' :: a :: b :: c :: d :: rest =>
    match Json.hex4? [a, b, c, d] with
    | some (n, _) => Char.ofNat n :: unescape rest
    | none => 'u' :: unescape (a :: b :: c :: d :: rest)
  | '\\' :: c :: rest => escapedChar c :: unescape rest
  | c :: rest => c :: unescape rest
  | [] => []

def stringValue (text : String) : String :=
  String.ofList (unescape (text.toList.drop 1).dropLast)

/-! ## Operators -/

/-- A rank of binary operators. -/
inductive Level
  | disjunction | conjunction | comparison | sum | product
deriving Repr, DecidableEq

/-- A token is a symbol or, in letters of either case, a word. -/
def Token.isKeyword (t : Token) (symbol word : String) : Bool :=
  (t.kind == .operator && t.text == symbol) || (t.kind == .name && t.text.toLower == word)

def Level.operator? (level : Level) (t : Token) : Option BinaryOp :=
  match level with
  | .disjunction => if t.isKeyword "||" "or" then some .or else none
  | .conjunction => if t.isKeyword "&&" "and" then some .and else none
  | .comparison =>
    if t.kind == .operator then
      [BinaryOp.strictEq, .strictNe, .eq, .ne, .ge, .le, .gt, .lt].find? (·.symbol == t.text)
    else none
  | .sum =>
    if t.kind == .operator then [BinaryOp.add, .sub].find? (·.symbol == t.text) else none
  | .product =>
    if t.kind == .operator then [BinaryOp.mul, .div, .mod].find? (·.symbol == t.text) else none

/-! ## Token streams -/

/-- The token at the front; the end mark, where none is left. -/
def peek (ts : List Token) : Token := ts.headD ⟨.stop, "", 0⟩

def advance : List Token → List Token
  | t :: rest => if t.kind == .stop then t :: rest else rest
  | [] => []

def expect (kind : TokenKind) (ts : List Token) : Except ExpressionFault (Token × List Token) :=
  let t := peek ts
  if t.kind == kind then .ok (t, advance ts)
  else .error (.expected kind.label t.text t.position)

/-- The rest of a path: parts after points and indices in brackets. -/
def pathTail (segments : List String) :
    List Token → Except ExpressionFault (List String × List Token)
  | t :: rest =>
    match t.kind, rest with
    | .dot, part :: rest =>
      if part.kind == .name || part.kind == .number then pathTail (segments ++ [part.text]) rest
      else .error (.invalidSegment part.position)
    | .leftBracket, index :: bracket :: rest =>
      if index.kind == .number then
        if bracket.kind == .rightBracket then pathTail (segments ++ [index.text]) rest
        else .error (.expected TokenKind.rightBracket.label bracket.text bracket.position)
      else .error (.expected TokenKind.number.label index.text index.position)
    | .leftBracket, index :: [] =>
      .error (.expected TokenKind.number.label index.text index.position)
    | _, rest => .ok (segments, t :: rest)
  | [] => .ok (segments, [])

def parsePath (name : Token) (ts : List Token) : Except ExpressionFault (Expr × List Token) := do
  let (segments, rest) ← pathTail [name.text] ts
  return (.variable (".".intercalate segments), rest)

def numberValue (text : String) : Except ExpressionFault Value :=
  match (Value.str text).toNumber with
  | .ok n => .ok n.toValue
  | .error (.expression cause) => .error cause
  | .error _ => .error .longNumeral

/-- The value of a word that is a constant, in letters of either case. -/
def constant? (text : String) : Option Value :=
  let word := text.toLower
  if word == "true" then some (.bool true)
  else if word == "false" then some (.bool false)
  else if word == "null" then some .null
  else none

/-- The key that a token is before a colon. -/
def entryKey (t : Token) : Except ExpressionFault String :=
  match t.kind with
  | .string => .ok (stringValue t.text)
  | .name | .number => .ok t.text
  | _ => .error (.invalidKey t.position)

/-! ## Expressions

`functions` tells which names can be called. `fuel` bounds the depth of the calls. -/

mutual

def parseLevel (functions : String → Bool) (fuel : Nat) (level : Level) (ts : List Token) :
    Except ExpressionFault (Expr × List Token) :=
  match fuel with
  | 0 => .error .empty
  | fuel + 1 => do
    let (left, rest) ← parseOperand functions fuel level ts
    parseChain functions fuel level left rest

/-- More operators of a rank and their right operands. -/
def parseChain (functions : String → Bool) (fuel : Nat) (level : Level) (left : Expr)
    (ts : List Token) : Except ExpressionFault (Expr × List Token) :=
  match fuel with
  | 0 => .error .empty
  | fuel + 1 =>
    match level.operator? (peek ts) with
    | none => .ok (left, ts)
    | some op => do
      let (right, rest) ← parseOperand functions fuel level (advance ts)
      parseChain functions fuel level (.binary op left right) rest

/-- An operand of a rank: an expression of the next tighter rank. -/
def parseOperand (functions : String → Bool) (fuel : Nat) (level : Level) (ts : List Token) :
    Except ExpressionFault (Expr × List Token) :=
  match fuel with
  | 0 => .error .empty
  | fuel + 1 =>
    match level with
    | .disjunction => parseLevel functions fuel .conjunction ts
    | .conjunction => parseNot functions fuel ts
    | .comparison => parseLevel functions fuel .sum ts
    | .sum => parseLevel functions fuel .product ts
    | .product => parseSigned functions fuel ts

def parseNot (functions : String → Bool) (fuel : Nat) (ts : List Token) :
    Except ExpressionFault (Expr × List Token) :=
  match fuel with
  | 0 => .error .empty
  | fuel + 1 =>
    if (peek ts).isKeyword "!" "not" then do
      let (operand, rest) ← parseNot functions fuel (advance ts)
      return (.unary .not operand, rest)
    else parseLevel functions fuel .comparison ts

/-- Signs of a primary expression; a plus sign changes nothing. -/
def parseSigned (functions : String → Bool) (fuel : Nat) (ts : List Token) :
    Except ExpressionFault (Expr × List Token) :=
  match fuel with
  | 0 => .error .empty
  | fuel + 1 =>
    let t := peek ts
    if t.kind == .operator && t.text == "-" then do
      let (operand, rest) ← parseSigned functions fuel (advance ts)
      return (.unary .neg operand, rest)
    else if t.kind == .operator && t.text == "+" then parseSigned functions fuel (advance ts)
    else parsePrimary functions fuel ts

/-- A literal, a path, a call, or an expression in brackets. A constant's name before a point is a
path's first part. -/
def parsePrimary (functions : String → Bool) (fuel : Nat) (ts : List Token) :
    Except ExpressionFault (Expr × List Token) :=
  match fuel with
  | 0 => .error .empty
  | fuel + 1 =>
    let t := peek ts
    let rest := advance ts
    match t.kind with
    | .number => do return (.literal (← numberValue t.text), rest)
    | .string => .ok (.literal (.str (stringValue t.text)), rest)
    | .leftParen => do
      let (inner, rest) ← parseLevel functions fuel .disjunction rest
      let (_, rest) ← expect .rightParen rest
      return (inner, rest)
    | .leftBracket => do
      let (items, rest) ← parseArguments functions fuel .rightBracket rest
      return (.array items, rest)
    | .leftBrace =>
      if (peek rest).kind == .rightBrace then .ok (.object [], advance rest)
      else do
        let (entries, rest) ← parseEntries functions fuel rest
        return (.object entries, rest)
    | .name =>
      match constant? t.text with
      | some v => if (peek rest).kind != .dot then .ok (.literal v, rest) else parsePath t rest
      | none =>
        if (peek rest).kind == .leftParen then
          if functions t.text then do
            let (args, rest) ← parseArguments functions fuel .rightParen (advance rest)
            return (.call t.text args, rest)
          else .error (.unknownFunction t.text)
        else parsePath t rest
    | _ => .error (.unexpectedToken t.text t.position)

/-- Expressions between commas up to a closing bracket, of which there may be none. -/
def parseArguments (functions : String → Bool) (fuel : Nat) (closing : TokenKind)
    (ts : List Token) : Except ExpressionFault (List Expr × List Token) :=
  match fuel with
  | 0 => .error .empty
  | fuel + 1 =>
    if (peek ts).kind == closing then .ok ([], advance ts)
    else parseItems functions fuel closing ts

/-- Expressions between commas up to a closing bracket, at least one. -/
def parseItems (functions : String → Bool) (fuel : Nat) (closing : TokenKind) (ts : List Token) :
    Except ExpressionFault (List Expr × List Token) :=
  match fuel with
  | 0 => .error .empty
  | fuel + 1 => do
    let (item, rest) ← parseLevel functions fuel .disjunction ts
    if (peek rest).kind == .comma then
      let (items, rest) ← parseItems functions fuel closing (advance rest)
      return (item :: items, rest)
    else
      let (_, rest) ← expect closing rest
      return ([item], rest)

/-- Entries between commas up to a closing brace, at least one. -/
def parseEntries (functions : String → Bool) (fuel : Nat) (ts : List Token) :
    Except ExpressionFault (List (String × Expr) × List Token) :=
  match fuel with
  | 0 => .error .empty
  | fuel + 1 => do
    let key ← entryKey (peek ts)
    let (_, rest) ← expect .colon (advance ts)
    let (value, rest) ← parseLevel functions fuel .disjunction rest
    if (peek rest).kind == .comma then
      let (entries, rest) ← parseEntries functions fuel (advance rest)
      return ((key, value) :: entries, rest)
    else
      let (_, rest) ← expect .rightBrace rest
      return ([(key, value)], rest)

end

/-- The depth of calls that suffices for some tokens: between two tokens lie fewer ranks than this. -/
def parseFuel (ts : List Token) : Nat := 20 * (ts.length + 1)

def parseTokens (functions : String → Bool) (ts : List Token) : Except ExpressionFault Expr :=
  if (peek ts).kind == .stop then .error .empty
  else do
    let (e, rest) ← parseLevel functions (parseFuel ts) .disjunction ts
    let t := peek rest
    if t.kind == .stop then return e else .error (.unexpectedToken t.text t.position)

def parse (functions : String → Bool) (s : String) : Except ExpressionFault Expr := do
  parseTokens functions (← tokenize s)

end Flowline.Expression
